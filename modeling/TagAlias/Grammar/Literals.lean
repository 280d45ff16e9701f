import TagAlias.Grammar.Rules
/-!
# Literals

Numbers, strings, regular expressions and template strings.
-/
namespace TagAlias.Grammar

/-! ## Numbers -/

/-- Number of characters of a run of digits, single underscores between them allowed. -/
def digitsLength (isDigit : Char → Bool) : List Char → Nat
  | [] => 0
  | c :: r =>
    if isDigit c then
      match r with
      | '_' :: d :: r => if isDigit d then digitsLength isDigit (d :: r) + 2 else 1
      | r => digitsLength isDigit r + 1
    else 0

def exponentLength : List Char → Nat
  | e :: r =>
    if e == 'e' || e == 'E' then
      let sign := if r.head? == some '+' || r.head? == some '-' then 1 else 0
      match digitsLength Char.isDigit (r.drop sign) with
      | 0 => 0
      | n => 1 + sign + n
    else 0
  | [] => 0

def bigMark (cs : List Char) : Nat := if cs.head? == some 'n' then 1 else 0

/-- Number of characters of the number that the text begins with, zero if it begins with none. -/
def numberLength (cs : List Char) : Nat :=
  let radix (isDigit : Char → Bool) : Nat :=
    match digitsLength isDigit (cs.drop 2) with
    | 0 => 1
    | n => 2 + n + bigMark (cs.drop (2 + n))
  match cs with
  | '0' :: 'x' :: _ => radix isHex
  | '0' :: 'X' :: _ => radix isHex
  | '0' :: 'b' :: _ => radix (fun c => c == '0' || c == '1')
  | '0' :: 'B' :: _ => radix (fun c => c == '0' || c == '1')
  | '0' :: 'o' :: _ => radix (fun c => '0' ≤ c && c ≤ '7')
  | '0' :: 'O' :: _ => radix (fun c => '0' ≤ c && c ≤ '7')
  | _ =>
    let whole := digitsLength Char.isDigit cs
    let afterWhole := cs.drop whole
    if afterWhole.head? == some '.' then
      let fraction := digitsLength Char.isDigit (afterWhole.drop 1)
      if whole + fraction == 0 then 0
      else whole + 1 + fraction + exponentLength (afterWhole.drop (1 + fraction))
    else if whole == 0 then 0
    else if bigMark afterWhole == 1 then whole + 1
    else whole + exponentLength afterWhole

def number : Parser := fun c =>
  let c := c.skip
  match numberLength c.rest with
  | 0 => none
  | n => taking "number" true n c

/-! ## Strings -/

def escapeLength : List Char → Option Nat
  | '\\' :: r =>
    match r with
    | 'x' :: a :: b :: _ => if isHex a && isHex b then some 4 else none
    | 'u' :: '\x7b' :: r =>
      let n := (r.takeWhile isHex).length
      if n == 0 || (r.drop n).head? != some '\x7d' then none else some (4 + n)
    | 'u' :: a :: b :: c :: d :: _ => if [a, b, c, d].all isHex then some 6 else none
    | '\r' :: '\n' :: _ => some 3
    | d :: r =>
      if d == 'x' || d == 'u' then none
      else if '0' ≤ d && d ≤ '7' then some (2 + ((r.take 2).takeWhile (fun c => '0' ≤ c && c ≤ '7')).length)
      else some 2
    | [] => none
  | _ => none

/-- The pieces between two quotes: runs of plain characters and escapes. -/
def stringPieces (isPlain : Char → Bool) : Parser :=
  many (firstOf [
    fun c =>
      match (c.rest.takeWhile isPlain).length with
      | 0 => none
      | n => taking "string_fragment" true n c,
    fun c =>
      match escapeLength c.rest with
      | some n => taking "escape_sequence" true n c
      | none => none])

/-- The text at the cursor itself, with no blanks skipped. -/
def tight (s : String) : Parser := fun c =>
  if s.toList.isPrefixOf c.rest then taking s false s.length c else none

def quoted (q : Char) : Parser :=
  let quote := String.ofList [q]
  rule "string" [tok quote, stringPieces (fun c => c != q && c != '\\' && c != '\r' && c != '\n'), tight quote]

def string : Parser := firstOf [quoted '\'', quoted '"']

/-! ## Regular expressions -/

/-- Number of characters of the body of a regular expression: a class in brackets may hold a bare slash. -/
def patternLength : Bool → List Char → Nat
  | _, [] => 0
  | inClass, c :: r =>
    if c == '\n' then 0
    else if c == '\\' then
      match r with
      | [] => 0
      | d :: r => if d == '\n' then 0 else patternLength inClass r + 2
    else if c == '[' then patternLength true r + 1
    else if c == ']' then patternLength false r + 1
    else if c == '/' && !inClass then 0
    else patternLength inClass r + 1

def regex : Parser :=
  rule "regex" [
    tok "/",
    inField "pattern" (fun c =>
      match patternLength false c.rest with
      | 0 => none
      | n => taking "regex_pattern" true n c),
    tight "/",
    inField "flags" (optional (fun c =>
      match (c.rest.takeWhile (fun d => 'a' ≤ d && d ≤ 'z')).length with
      | 0 => none
      | n => taking "regex_flags" true n c))]

/-! ## Template strings -/

def templateLength : List Char → Nat
  | [] => 0
  | c :: r =>
    if c == '\x60' || c == '\\' then 0
    else if c == '$' && r.head? == some '\x7b' then 0
    else templateLength r + 1

def templatePieces (substitution : Parser) : Parser :=
  many (firstOf [
    fun c =>
      match templateLength c.rest with
      | 0 => none
      | n => taking "string_fragment" true n c,
    fun c =>
      match escapeLength c.rest with
      | some n => taking "escape_sequence" true n c
      | none => none,
    fun c => if "$\x7b".toList.isPrefixOf c.rest then substitution c else none])

end TagAlias.Grammar
