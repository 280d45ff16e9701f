/-!
# Binary floating-point numbers and their shortest text

A number of the 64-bit binary format is an integer mantissa times a power of two.  `ofFraction` is the number nearest to
a fraction, of two the one with the even mantissa.  `shortest` are the fewest decimal digits that are nearer to a number
than to its neighbours, and of these the nearest; `display` writes them positionally in the middle range and with an
exponent outside it.  All of it is arithmetic on integers.
-/
namespace TagAlias

inductive Binary64 where
  /-- `mantissa · 2 ^ exponent`, with a sign. -/
  | finite (negative : Bool) (mantissa : Nat) (exponent : Int)
  | infinite (negative : Bool)
  | nan
  deriving DecidableEq, Repr

namespace Binary64

/-! ## Rounding -/

/-- The integer nearest to `n / d`, of two the even one. -/
def roundQuotient (n d : Nat) : Nat :=
  let q := n / d
  let r := n % d
  if 2 * r > d || (2 * r == d && q % 2 == 1) then q + 1 else q

/-- `n · b ^ e` as a fraction. -/
def scale (b n : Nat) (e : Int) : Nat × Nat := if 0 ≤ e then (n * b.pow e.toNat, 1) else (n, b.pow (-e).toNat)

/-- The least mantissa of a number that is not too small for all 53 binary digits. -/
def leastNormal : Nat := Nat.pow 2 52

def leastExponent : Int := -1074

def greatestExponent : Int := 971

/-- The number nearest to `n / d`, with a sign. -/
def ofFraction (negative : Bool) (n d : Nat) : Binary64 :=
  if n == 0 then finite negative 0 0
  else
    let e : Int := (Nat.log2 n : Int) - (Nat.log2 d : Int)
    let (a, b) := scale 2 1 e
    let q := max (if n * b ≥ d * a then e - 52 else e - 53) leastExponent
    let (c, k) := scale 2 1 (-q)
    let m := roundQuotient (n * c) (d * k)
    let (m, q) := if m == 2 * leastNormal then (leastNormal, q + 1) else (m, q)
    if greatestExponent < q then infinite negative else finite negative m q

/-- The number nearest to `digits · 10 ^ e`.  Far outside the range of the format the power is not worked out. -/
def ofDecimal (negative : Bool) (digits : Nat) (e : Int) : Binary64 :=
  let size : Int := (Nat.toDigits 10 digits).length + e
  if digits == 0 || size < -400 then finite negative 0 0
  else if 400 < size then infinite negative
  else
    let (n, d) := scale 10 digits e
    ofFraction negative n d

/-! ## The shortest digits -/

/-- The number `k` for which `n / d` lies in `[10 ^ (k - 1), 10 ^ k)`, if `n / d < 10 ^ k` for some `k` above minus the
fuel. -/
def magnitude (n d : Nat) : Nat → Int
  | 0 => 0
  | fuel + 1 => if n < d then (if 10 * n ≥ d then 0 else magnitude (10 * n) d fuel - 1) else (Nat.toDigits 10 (n / d)).length

/-- Whether `c · 10 ^ p` reads back as `m · 2 ^ q`.  Everything is counted in quarters of `2 ^ q`; below a power of two
the distance to the next number is half as large. -/
def readsBack (m : Nat) (q : Int) (c : Nat) (p : Int) : Bool :=
  let (a, b) := scale 10 c p
  let (s, t) := scale 2 1 (q - 2)
  let x := a * t
  let unit := b * s
  let below := if m == leastNormal && leastExponent < q then 4 * m - 1 else 4 * m - 2
  if m % 2 == 0 then below * unit ≤ x && x ≤ (4 * m + 2) * unit else below * unit < x && x < (4 * m + 2) * unit

/-- The decimals of `width` digits next to `n / d`, nearest first. -/
def neighbours (n d : Nat) (p : Int) : List Nat :=
  let (a, b) := scale 10 1 (-p)
  let c := n * a / (d * b)
  let r := n * a % (d * b)
  if 2 * r > d * b || (2 * r == d * b && c % 2 == 1) then [c + 1, c] else [c, c + 1]

/-- Tries the decimals of `17 - fuel` digits and more. -/
def search (m : Nat) (q : Int) (n d : Nat) (k : Int) : Nat → Nat × Int
  | 0 => (m, 0)
  | fuel + 1 =>
    let p := k - (17 - (fuel : Int))
    match (neighbours n d p).find? (readsBack m q · p) with
    | some c => (c, p)
    | none => search m q n d k fuel

/-- Digits `c` and exponent `p` of the shortest decimal `c · 10 ^ p` that reads back as `m · 2 ^ q`. -/
def shortest (m : Nat) (q : Int) : Nat × Int :=
  let (n, d) := scale 2 m q
  search m q n d (magnitude n d 400) 17

/-! ## Text -/

def dropZeros (ds : List Char) : List Char := (ds.reverse.dropWhile (· == '0')).reverse

/-- Digits with the point after the first `point` of them. -/
def positional (ds : List Char) (point : Int) : List Char :=
  if point ≤ 0 then '0' :: '.' :: List.replicate (-point).toNat '0' ++ ds
  else
    let whole := ds.take point.toNat
    let fraction := ds.drop point.toNat
    whole ++ List.replicate (point.toNat - whole.length) '0' ++ '.' :: (if fraction.isEmpty then ['0'] else fraction)

/-- Digits with the point after the first of them, and a power of ten. -/
def scientific (ds : List Char) (e : Int) : List Char :=
  let power := Nat.toDigits 10 e.natAbs
  ds.take 1 ++ (if ds.length ≤ 1 then [] else '.' :: ds.drop 1) ++ 'e' :: (if e < 0 then '-' else '+')
    :: (if power.length < 2 then '0' :: power else power)

def displayDigits (m : Nat) (q : Int) : List Char :=
  if m == 0 then ['0', '.', '0']
  else
    let (c, p) := shortest m q
    let all := Nat.toDigits 10 c
    let point : Int := all.length + p
    let ds := dropZeros all
    if -4 < point && point ≤ 16 then positional ds point else scientific ds (point - 1)

def sign (negative : Bool) : String := if negative then "-" else ""

def display : Binary64 → String
  | finite s m q => sign s ++ String.ofList (displayDigits m q)
  | infinite s => sign s ++ "inf"
  | nan => "nan"

end Binary64

end TagAlias
