/-!
# A place in the text, and what may be skipped there

A `Cursor` is the text still to be read together with the byte offset it begins at.  Between two tokens may stand
blanks and comments; `Cursor.skip` goes past them.  All character classes of the scripting languages that the grammar
needs are here, so that a reader can see in one place which characters separate, which name and which end a line.
-/
namespace TagAlias.Grammar

/-! ## Character classes -/

/-- Characters that separate tokens: the ASCII blanks, the Unicode space separators, the line and paragraph separators,
the byte order mark and the two zero-width joints. -/
def isBlank (c : Char) : Bool :=
  c == ' ' || ('\t' ≤ c && c ≤ '\r') || c == '\u00a0' || c == '\u1680' || ('\u2000' ≤ c && c ≤ '\u200b')
    || c == '\u2028' || c == '\u2029' || c == '\u202f' || c == '\u205f' || c == '\u2060' || c == '\u3000'
    || c == '\ufeff'

/-- The narrower class of blanks in which the end of an unterminated statement is looked for: no blank that forbids a
line break belongs to it. -/
def isSpace (c : Char) : Bool :=
  c == ' ' || ('\t' ≤ c && c ≤ '\r') || c == '\u1680' || ('\u2000' ≤ c && c ≤ '\u200a' && c != '\u2007')
    || c == '\u2028' || c == '\u2029' || c == '\u205f' || c == '\u3000'

/-- A line comment runs up to one of these. -/
def endsLine (c : Char) : Bool := c == '\n' || c == '\r' || c == '\u2028' || c == '\u2029'

/-- Characters that no name may hold, besides blanks and the controls below U+0020. -/
def isPunctuation (c : Char) : Bool := ":;\x60\"'@#.,|^&<=>+-*/\\%?!~()[]\x7b\x7d".toList.contains c

def isNameChar (c : Char) : Bool := !(c < ' ') && !isBlank c && !isPunctuation c

def isNameStart (c : Char) : Bool := isNameChar c && !c.isDigit

def isHex (c : Char) : Bool := c.isDigit || ('a' ≤ c && c ≤ 'f') || ('A' ≤ c && c ≤ 'F')

/-! ## Cursors -/

structure Cursor where
  rest : List Char
  offset : Nat

def byteLength (cs : List Char) : Nat := cs.foldl (fun n c => n + c.utf8Size) 0

def Cursor.forward (c : Cursor) (n : Nat) : Cursor := ⟨c.rest.drop n, c.offset + byteLength (c.rest.take n)⟩

def Cursor.peek (c : Cursor) : Option Char := c.rest.head?

/-- What a skip is in the middle of. -/
inductive Gap where
  | between
  | line
  | block
  deriving DecidableEq

/-- Goes past blanks and comments.  A block comment that is never closed is none, so the skip ends before it; `none`
says that the text ended inside a block comment. -/
def skipGap : Gap → List Char → Nat → Option Cursor
  | .block, [], _ => none
  | .between, [], off => some ⟨[], off⟩
  | .line, [], off => some ⟨[], off⟩
  | .line, c :: r, off => skipGap (if endsLine c then .between else .line) r (off + c.utf8Size)
  | .block, c :: r, off =>
    if c == '*' then
      match r with
      | '/' :: r => skipGap .between r (off + 2)
      | r => skipGap .block r (off + 1)
    else skipGap .block r (off + c.utf8Size)
  | .between, c :: r, off =>
    if isBlank c then skipGap .between r (off + c.utf8Size)
    else if c == '/' then
      match r with
      | '/' :: r' => skipGap .line r' (off + 2)
      | '*' :: r' =>
        match skipGap .block r' (off + 2) with
        | some d => some d
        | none => some ⟨c :: r, off⟩
      | _ => some ⟨c :: r, off⟩
    else some ⟨c :: r, off⟩

/-- The start of the next token. -/
def Cursor.skip (c : Cursor) : Cursor := (skipGap .between c.rest c.offset).getD c

def Cursor.skipBlanks (c : Cursor) : Cursor := c.forward (c.rest.takeWhile isBlank).length

/-- Number of characters up to and including the end of a block comment. -/
def closeLength : List Char → Option Nat
  | [] => none
  | c :: r =>
    if c == '*' then
      match r with
      | '/' :: _ => some 2
      | r => (closeLength r).map (· + 1)
    else (closeLength r).map (· + 1)

/-- Number of characters of the comment that the text begins with. -/
def commentLength : List Char → Option Nat
  | '/' :: '/' :: r => some (2 + (r.takeWhile (!endsLine ·)).length)
  | '/' :: '*' :: r => (closeLength r).map (· + 2)
  | _ => none

/-- Number of characters of the markup-style line comment that the text begins with: such a comment may only stand
where an operand could. -/
def markupCommentLength : List Char → Option Nat
  | '<' :: '!' :: '-' :: '-' :: r => some (4 + (r.takeWhile (fun c => c != '\n' && c != '\u2028' && c != '\u2029')).length)
  | '-' :: '-' :: '>' :: r => some (3 + (r.takeWhile (fun c => c != '\n' && c != '\u2028' && c != '\u2029')).length)
  | _ => none

/-- The start of the next operand: markup-style comments are skipped as well. -/
def skipToOperand : Nat → Cursor → Cursor
  | 0, c => c.skip
  | n + 1, c =>
    let c := c.skip
    match markupCommentLength c.rest with
    | some k => skipToOperand n (c.forward k)
    | none => c

/-- Whether the gap before the next token holds a line feed. -/
def Cursor.breaksLine (c : Cursor) : Bool :=
  let s := c.skip
  (c.rest.take (c.rest.length - s.rest.length)).contains '\n'

/-! ## Names -/

/-- Number of characters of a name; `inBraces` inside an escape such as backslash-u-brace. -/
def nameLength : Bool → List Char → Nat
  | _, [] => 0
  | true, c :: r => if isHex c then nameLength true r + 1 else if c == '\x7d' then nameLength false r + 1 else 0
  | false, c :: r =>
    if isNameChar c then nameLength false r + 1
    else if c == '\\' then
      match r with
      | 'u' :: '\x7b' :: r => nameLength true r + 3
      | 'u' :: d₁ :: d₂ :: d₃ :: d₄ :: r => if [d₁, d₂, d₃, d₄].all isHex then nameLength false r + 6 else 0
      | _ => 0
    else 0

/-- The name at the cursor and its number of characters. -/
def Cursor.name? (c : Cursor) : Option (String × Nat) :=
  match c.rest with
  | [] => none
  | d :: _ =>
    if isNameStart d || d == '\\' then
      match nameLength false c.rest with
      | 0 => none
      | n => some (String.ofList (c.rest.take n), n)
    else none

/-! ## Punctuators -/

/-- Operators and brackets of more than one character, longest first. -/
def longPunctuators : List (List Char) :=
  [">>>=", "...", "===", "!==", "**=", "<<=", ">>=", ">>>", "&&=", "||=", "??=", "=>", "==", "!=", "<=", ">=", "&&",
    "||", "??", "?.", "++", "--", "+=", "-=", "*=", "/=", "%=", "&=", "|=", "^=", "<<", ">>", "**"].map String.toList

/-- The longest punctuator at the cursor.  A question mark before a decimal fraction stands alone. -/
def Cursor.punctuator (c : Cursor) : String :=
  match c.rest with
  | [] => ""
  | '?' :: '.' :: d :: _ => if d.isDigit then "?" else "?."
  | d :: _ =>
    match longPunctuators.find? (·.isPrefixOf c.rest) with
    | some p => String.ofList p
    | none => String.ofList [d]

end TagAlias.Grammar
