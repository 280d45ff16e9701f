import TagAlias.Text.Utf8
/-!
# Lines and blanks

Two notions of a line are used.  Positions in source text count line feeds alone, over bytes.  Text that is listed or
quoted is split at every line boundary of Unicode, and blanks at its ends are dropped.
-/
namespace TagAlias.Text

/-! ## Line feeds in bytes -/

def lineFeed : UInt8 := 0x0a

/-- Number of line feeds before the offset. -/
def rowOf (src : Bytes) (offset : Nat) : Nat := (src.take offset).count lineFeed

/-- Offset just after the last line feed before the offset, zero if there is none. -/
def lineStart (src : Bytes) (offset : Nat) : Nat :=
  let before := src.take offset
  before.length - (before.reverse.takeWhile (· != lineFeed)).length

/-- The blanks of ASCII, as bytes. -/
def isBlankByte (b : UInt8) : Bool := b == 0x20 || (0x09 ≤ b && b ≤ 0x0d)

/-! ## Lines and blanks of Unicode -/

def isBoundary (c : Char) : Bool :=
  ('\n' ≤ c && c ≤ '\r') || ('\x1c' ≤ c && c ≤ '\x1e') || c == '\u0085' || c == '\u2028' || c == '\u2029'

def isBlank (c : Char) : Bool :=
  ('\t' ≤ c && c ≤ '\r') || ('\x1c' ≤ c && c ≤ ' ') || c == '\u0085' || c == '\u00a0' || c == '\u1680'
    || ('\u2000' ≤ c && c ≤ '\u200a') || c == '\u2028' || c == '\u2029' || c == '\u202f' || c == '\u205f' || c == '\u3000'

/-- The lines of a text, where `line` is what has been read of the first one, last character first.  A carriage return
and a line feed make one boundary, and a boundary at the end begins no further line. -/
def linesFrom (line : List Char) : List Char → List (List Char)
  | [] => if line.isEmpty then [] else [line.reverse]
  | c :: r =>
    if isBoundary c then
      match c, r with
      | '\r', '\n' :: r => line.reverse :: linesFrom [] r
      | _, r => line.reverse :: linesFrom [] r
    else linesFrom (c :: line) r

def lines (cs : List Char) : List (List Char) := linesFrom [] cs

def strip (cs : List Char) : List Char :=
  ((cs.dropWhile isBlank).reverse.dropWhile isBlank).reverse

end TagAlias.Text
