import TagAlias.Data.Number
/-!
# Reading JSON

`read` takes a whole text.  It accepts the numbers NaN and Infinity besides those of the format, and of two entries under
one key keeps the later.  A text may be given by halves of surrogate pairs, and one that stands alone stays what it is.
-/
namespace TagAlias

inductive Json where
  | null
  | bool (b : Bool)
  | integer (n : Int)
  | real (x : Binary64)
  | text (s : Str)
  | list (items : List Json)
  /-- Keys are distinct, in order of their first appearance. -/
  | table (entries : List (Str × Json))
  deriving Repr, Inhabited

namespace Json

mutual

/-- The value in the notation in which messages show it. -/
def quoted : Json → String
  | null => "None"
  | bool true => "True"
  | bool false => "False"
  | integer n => toString n
  | real x => x.display
  | text s => Text.quotedPoints s
  | list vs => Text.bracketed (quotedAll vs)
  | table es => "\x7b" ++ ", ".intercalate (quotedEntries es) ++ "\x7d"

def quotedAll : List Json → List String
  | [] => []
  | v :: r => quoted v :: quotedAll r

def quotedEntries : List (Str × Json) → List String
  | [] => []
  | (k, v) :: r => (Text.quotedPoints k ++ ": " ++ quoted v) :: quotedEntries r

end

/-- The value as text. -/
def display : Json → Str
  | text s => s
  | v => v.quoted

def isBlank (c : Char) : Bool := c == ' ' || c == '\t' || c == '\n' || c == '\r'

def skip (cs : List Char) : List Char := cs.dropWhile isBlank

/-! ## Strings -/

def escapes : List (Char × Char) :=
  [('"', '"'), ('\\', '\\'), ('/', '/'), ('b', '\x08'), ('f', '\x0c'), ('n', '\n'), ('r', '\r'), ('t', '\t')]

/-- The number that four hexadecimal digits stand for. -/
def unit? (a b c d : Char) : Option Nat :=
  if [a, b, c, d].all Number.isHexDigit then some (Number.ofDigits 16 [a, b, c, d]) else none

def isHigh (n : Nat) : Bool := 0xD800 ≤ n && n < 0xDC00

def isLow (n : Nat) : Bool := 0xDC00 ≤ n && n < 0xE000

/-- The character of a whole pair. -/
def joined (high low : Nat) : CodePoint := .ofNat (0x10000 + (high - 0xD800) * 0x400 + (low - 0xDC00))

/-- What is left of a string up to its closing quote, where `done` has been read, last code point first. -/
def string (done : Str) : List Char → Option (Str × List Char)
  | '"' :: r => some (done.reverse, r)
  | '\\' :: 'u' :: a :: b :: c :: d :: '\\' :: 'u' :: e :: f :: g :: h :: r =>
    match unit? a b c d, unit? e f g h with
    | some n, some m =>
      if isHigh n && isLow m then string (joined n m :: done) r
      else string (.ofNat n :: done) ('\\' :: 'u' :: e :: f :: g :: h :: r)
    | _, _ => none
  | '\\' :: 'u' :: a :: b :: c :: d :: r =>
    match unit? a b c d with
    | some n => string (.ofNat n :: done) r
    | none => none
  | '\\' :: c :: r =>
    match escapes.lookup c with
    | some e => string (.char e :: done) r
    | none => none
  | c :: r => if c.toNat < 0x20 || c == '\\' then none else string (.char c :: done) r
  | [] => none

/-! ## Numbers -/

def power? (cs : List Char) : Option (Int × List Char) :=
  match cs with
  | e :: r =>
    if e == 'e' || e == 'E' then
      let (negative, r) := Number.splitSign r
      let ds := r.takeWhile Char.isDigit
      if ds.isEmpty then none
      else some (Number.exponent ((if negative then '-' else '+') :: ds), r.dropWhile Char.isDigit)
    else none
  | [] => none

def fraction? (cs : List Char) : Option (List Char × List Char) :=
  match cs with
  | '.' :: r => if (r.takeWhile Char.isDigit).isEmpty then none else some (r.takeWhile Char.isDigit, r.dropWhile Char.isDigit)
  | _ => none

/-- A zero, or digits that begin with another. -/
def whole? : List Char → Option (List Char × List Char)
  | '0' :: r => some (['0'], r)
  | r => if (r.takeWhile Char.isDigit).isEmpty then none else some (r.takeWhile Char.isDigit, r.dropWhile Char.isDigit)

def number (negative : Bool) (cs : List Char) : Option (Json × List Char) :=
  match whole? cs with
  | none => none
  | some (whole, r) =>
    match fraction? r with
    | some (fraction, r) =>
      match power? r with
      | some (e, r) => some (.real (Number.decimal negative whole fraction e), r)
      | none => some (.real (Number.decimal negative whole fraction 0), r)
    | none =>
      match power? r with
      | some (e, r) => some (.real (Number.decimal negative whole [] e), r)
      | none =>
        if Number.digitLimit < whole.length then none
        else some (.integer (Number.signed negative (Number.ofDigits 10 whole)), r)

def words : List (String × Json) :=
  [("null", .null), ("true", .bool true), ("false", .bool false), ("NaN", .real .nan),
    ("Infinity", .real (.infinite false)), ("-Infinity", .real (.infinite true))]

def word? (cs : List Char) : Option (Json × List Char) :=
  (words.find? (fun w => w.1.toList.isPrefixOf cs)).map (fun w => (w.2, cs.drop w.1.length))

def scalar (cs : List Char) : Option (Json × List Char) :=
  match word? cs, cs with
  | some v, _ => some v
  | none, '-' :: r => number true r
  | none, r => number false r

/-! ## Values -/

mutual

/-- A value and what follows it, for nestings up to a depth that the first argument bounds. -/
def value : Nat → List Char → Option (Json × List Char)
  | 0, _ => none
  | n + 1, cs =>
    match skip cs with
    | '"' :: r => (string [] r).map (fun (s, r) => (.text s, r))
    | '[' :: r =>
      match skip r with
      | ']' :: r => some (.list [], r)
      | _ => items n [] r
    | '\x7b' :: r =>
      match skip r with
      | '\x7d' :: r => some (.table [], r)
      | _ => entries n [] r
    | cs => scalar cs

def items : Nat → List Json → List Char → Option (Json × List Char)
  | 0, _, _ => none
  | n + 1, done, cs =>
    match value n cs with
    | none => none
    | some (v, r) =>
      match skip r with
      | ',' :: r => items n (v :: done) r
      | ']' :: r => some (.list (v :: done).reverse, r)
      | _ => none

def entries : Nat → List (Str × Json) → List Char → Option (Json × List Char)
  | 0, _, _ => none
  | n + 1, done, cs =>
    match skip cs with
    | '"' :: r =>
      match string [] r with
      | none => none
      | some (key, r) =>
        match skip r with
        | ':' :: r =>
          match value n r with
          | none => none
          | some (v, r) =>
            match skip r with
            | ',' :: r => entries n ((key, v) :: done) r
            | '\x7d' :: r => some (.table (Value.settle ((key, v) :: done).reverse), r)
            | _ => none
        | _ => none
    | _ => none

end

/-- The value of a text.  Two steps of depth are spent at most on a character. -/
def read (cs : List Char) : Option Json :=
  match value (2 * cs.length + 2) cs with
  | some (v, r) => if (skip r).isEmpty then some v else none
  | none => none

end Json

end TagAlias
