import TagAlias.Data.Number
/-!
# Laying out values in a field

A layout says how a value fills a field: its width, what fills the rest and on which side, the sign of a number, the base
and grouping of its digits, how much of a text is kept.  A layout that does not suit the kind of the value is malformed.  An
integer may be shown as a real number: then it is first rounded to one of the binary format.
-/
namespace TagAlias

inductive Alignment where
  | left
  | right
  | centre
  /-- Between the sign of a number and its digits. -/
  | inner
  deriving DecidableEq, Repr

/-- Why a value cannot be laid out. -/
inductive LayoutFault where
  | malformed
  /-- The number is no character, or too large to be shown as a real one. -/
  | outOfRange
  deriving DecidableEq, Repr

structure Layout where
  fill : CodePoint
  /-- The alignment, if one is asked for. -/
  alignment : Option Alignment
  sign : Option Char
  keepsZeroSign : Bool
  alternate : Bool
  width : Option Nat
  grouping : Option Char
  precision : Option Nat
  type : Option CodePoint
  deriving DecidableEq, Repr

namespace Layout

/-! ## Reading a layout -/

def alignmentOf? (c : CodePoint) : Option Alignment :=
  c.char?.bind (fun c => [('<', Alignment.left), ('>', .right), ('^', .centre), ('=', .inner)].lookup c)

/-- The fill and the alignment at the beginning of a layout. -/
def readAlignment (cs : Str) : Option CodePoint × Option Alignment × Str :=
  match cs with
  | f :: a :: r =>
    match alignmentOf? a, alignmentOf? f with
    | some x, _ => (some f, some x, r)
    | none, some x => (none, some x, a :: r)
    | none, none => (none, none, cs)
  | [a] =>
    match alignmentOf? a with
    | some x => (none, some x, [])
    | none => (none, none, cs)
  | [] => (none, none, [])

/-- A character at the beginning, if it is one of those. -/
def readOne (options : List Char) : Str → Option Char × Str
  | .char c :: r => if options.contains c then (some c, r) else (none, .char c :: r)
  | r => (none, r)

def numberLimit : Nat := Nat.pow 2 63 - 1

def lengthLimit : Nat := Nat.pow 2 32

/-- No real number is shown with more places. -/
def placesLimit : Nat := Nat.pow 2 31 - 1

def isInRange (n : Option Nat) : Bool := n.all (· ≤ numberLimit)

def readNumber (cs : Str) : Option Nat × Str :=
  let ds := cs.takeWhile CodePoint.isDecimal
  (if ds.isEmpty then none else some (Text.ofDecimals (Str.chars ds)), cs.dropWhile CodePoint.isDecimal)

/-- The layout that a text describes.  A zero in front of the width stands for zeros between sign and digits where
numbers stand on the right. -/
def read? (isNumber : Bool) (cs : Str) : Option Layout := do
  let (fill, alignment, r) := readAlignment cs
  let (sign, r) := readOne [' ', '+', '-'] r
  let (z, r) := readOne ['z'] r
  let (alternate, r) := readOne ['#'] r
  let (zero, r) := if fill.isSome then (none, r) else readOne ['0'] r
  let (width, r) := readNumber r
  let (comma, r) := readOne [','] r
  let (under, r) := readOne ['_'] r
  if comma.isSome && under.isSome then none
  if under.isSome && (readOne [','] r).1.isSome then none
  let (point, r) := readOne ['.'] r
  let (precision, r) := if point.isSome then readNumber r else (none, r)
  if point.isSome && precision.isNone then none
  if !isInRange width || !isInRange precision then none
  let alignment := if zero.isSome && alignment.isNone && isNumber then some .inner else alignment
  let fill := fill.getD (if zero.isSome then '0' else ' ')
  match r with
  | [] => some ⟨fill, alignment, sign, z.isSome, alternate.isSome, width, comma.or under, precision, none⟩
  | [t] => some ⟨fill, alignment, sign, z.isSome, alternate.isSome, width, comma.or under, precision, some t⟩
  | _ => none

/-! ## Filling a field -/

/-- The text in a field of the width, with `lead` kept in front of an inner filling. -/
def pad (l : Layout) (standard : Alignment) (lead body : Str) : Str :=
  let missing := l.width.getD 0 - (lead.length + body.length)
  let some_ (n : Nat) := List.replicate n l.fill
  match l.alignment.getD standard with
  | .left => lead ++ body ++ some_ missing
  | .right => some_ missing ++ lead ++ body
  | .centre => some_ (missing / 2) ++ lead ++ body ++ some_ (missing - missing / 2)
  | .inner => lead ++ some_ missing ++ body

def layText (l : Layout) (s : Str) : Except LayoutFault Str :=
  if (l.type.getD (.char 's')) != .char 's' || l.sign.isSome || l.keepsZeroSign || l.alternate || l.grouping.isSome
      || l.alignment == some .inner then .error .malformed
  else
    let kept := match l.precision with
      | some p => s.take p
      | none => s
    .ok (l.pad .left [] kept)

/-- Digits in groups from the right, filled up with zeros to a width; `digits` come last digit first. -/
def grouped (size : Nat) (separator : Char) : Nat → List Char → Nat → List Char
  | 0, _, _ => []
  | fuel + 1, digits, width =>
    let n := min size (max (max digits.length width) 1)
    let group := digits.take n ++ List.replicate (n - digits.length) '0'
    let rest := digits.drop n
    if rest.isEmpty && width ≤ n then group
    else group ++ separator :: grouped size separator fuel rest (width - n - 1)

def isBased (t : Char) : Bool := t == 'b' || t == 'o' || t == 'x' || t == 'X'

def baseOf (t : Char) : Nat := if t == 'b' then 2 else if t == 'o' then 8 else if t == 'x' || t == 'X' then 16 else 10

def digitsOf (t : Char) (n : Nat) : List Char :=
  let ds := Nat.toDigits (baseOf t) n
  if t == 'X' then ds.map Char.toUpper else ds

def signOf (l : Layout) (negative : Bool) : List Char :=
  if negative then ['-'] else match l.sign with
    | some '+' => ['+']
    | some ' ' => [' ']
    | _ => []

/-- A number in the field: its sign, its digits up to a point, and what follows them. -/
def layDigits (l : Layout) (t : Char) (lead digits tail : List Char) : Str :=
  match l.grouping with
  | none => l.pad .right (lead.map .char) ((digits ++ tail).map .char)
  | some separator =>
    let zeros :=
      if l.fill == .char '0' && l.alignment == some .inner then l.width.getD 0 - (lead.length + tail.length) else 0
    let body := (grouped (if isBased t then 4 else 3) separator (digits.length + zeros + 1) digits.reverse zeros).reverse
    l.pad .right (lead.map .char) ((body ++ tail).map .char)

/-! ### Integers as real numbers -/

/-- The number of the binary format nearest to an integer; all of them in this range are integers. -/
def nearest? (n : Nat) : Option Nat :=
  match Binary64.ofDecimal false n 0 with
  | .finite _ m q => some (if 0 ≤ q then m * Nat.pow 2 q.toNat else m / Nat.pow 2 (-q).toNat)
  | _ => none

/-- The first `count` digits of a number, rounded, and the power of ten of the first. -/
def significant (count n : Nat) : List Char × Nat :=
  let ds := Nat.toDigits 10 n
  if ds.length ≤ count then (ds ++ List.replicate (count - ds.length) '0', ds.length - 1)
  else
    let r := Nat.toDigits 10 (Binary64.roundQuotient n (Nat.pow 10 (ds.length - count)))
    (r.take count, if r.length ≤ count then ds.length - 1 else ds.length)

/-- A fraction behind its point, which stands alone only if it is asked for. -/
def pointed (alternate : Bool) (ds : List Char) : List Char := if ds.isEmpty && !alternate then [] else '.' :: ds

def powerText (e : Char) (n : Nat) : List Char :=
  let ds := Nat.toDigits 10 n
  e :: '+' :: (if ds.length < 2 then '0' :: ds else ds)

/-- Digits with all that follows the point, for a number as real. -/
def realText (l : Layout) (t : Char) (n : Nat) : List Char × List Char :=
  let precision := l.precision.getD 6
  let whole (n : Nat) (places : Nat) := (Nat.toDigits 10 n, pointed l.alternate (List.replicate places '0'))
  let trimmed (ds : List Char) := if l.alternate then ds else Binary64.dropZeros ds
  if t == 'f' || t == 'F' then whole n precision
  else if t == '%' then
    match nearest? (n * 100) with
    | some m => ((whole m precision).1, (whole m precision).2 ++ ['%'])
    | none => (['i', 'n', 'f'], ['%'])
  else if t == 'e' || t == 'E' then
    let (ds, power) := significant (precision + 1) n
    (ds.take 1, pointed l.alternate (ds.drop 1) ++ powerText t power)
  else
    let count := max precision 1
    let (ds, power) := significant count n
    if power < count then (ds.take (power + 1), pointed l.alternate (trimmed (ds.drop (power + 1))))
    else (ds.take 1, pointed l.alternate (trimmed (ds.drop 1)) ++ powerText (if t == 'G' then 'E' else 'e') power)

def isReal (t : Char) : Bool := ['e', 'E', 'f', 'F', 'g', 'G', '%'].contains t

def layReal (l : Layout) (t : Char) (n : Int) : Except LayoutFault Str :=
  match nearest? n.natAbs with
  | none => .error .outOfRange
  | some m =>
    if placesLimit < l.precision.getD 0 then .error .malformed
    else
      let (digits, tail) := l.realText t m
      .ok (l.layDigits t (l.signOf (n < 0)) digits tail)

/-! ### Integers -/

def layCharacter (l : Layout) (n : Int) : Except LayoutFault Str :=
  if l.sign.isSome || l.alternate || l.precision.isSome || l.keepsZeroSign || l.grouping.isSome then .error .malformed
  else if n < 0 || 0x10FFFF < n then .error .outOfRange
  else .ok (l.pad .right [] [.ofNat n.toNat])

/-- The letter of a number's layout, the decimal one if there is none. -/
def letter? (l : Layout) : Option Char := (l.type.getD (.char 'd')).char?

def layAs (l : Layout) (t : Char) (n : Int) : Except LayoutFault Str :=
  if t == 'c' then l.layCharacter n
  else if isReal t then l.layReal t n
  else if !(isBased t || t == 'd' || t == 'n') || l.precision.isSome || l.keepsZeroSign
      || (l.grouping == some ',' && isBased t) || (l.grouping.isSome && t == 'n')
      || !(isBased t || Number.isShort n) then .error .malformed
  else
    let mark := if l.alternate && isBased t then ['0', t] else []
    .ok (l.layDigits t (l.signOf (n < 0) ++ mark) (digitsOf t n.natAbs) [])

def layInteger (l : Layout) (n : Int) : Except LayoutFault Str :=
  match l.letter? with
  | some t => l.layAs t n
  | none => .error .malformed

end Layout

end TagAlias
