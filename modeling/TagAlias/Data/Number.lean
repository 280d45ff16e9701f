import TagAlias.Data.Value
/-!
# Numbers in data formats

A number that is written with a point or an exponent is real, any other is an integer.  Integers in bases other than ten
may be read with any number of digits, but then they cannot be shown.
-/
namespace TagAlias

namespace Number

/-- No integer is read from more digits, or shown with more. -/
def digitLimit : Nat := 4300

/-- Whether an integer has few enough digits to be shown. -/
def isShort (n : Int) : Bool := n.natAbs < Nat.pow 10 digitLimit

/-- The number that digits of a base stand for. -/
def ofDigits (base : Nat) (ds : List Char) : Nat := ds.foldl (fun n c => n * base + digit c) 0
where
  digit (c : Char) : Nat :=
    if c.isDigit then c.toNat - 48 else if 'a' ≤ c ∧ c ≤ 'f' then c.toNat - 87 else c.toNat - 55

def isHexDigit (c : Char) : Bool := c.isDigit || ('a' ≤ c && c ≤ 'f') || ('A' ≤ c && c ≤ 'F')

def signed (negative : Bool) (n : Nat) : Int := if negative then -n else n

/-- The number with the digits before and after a point, times a power of ten. -/
def decimal (negative : Bool) (whole fraction : List Char) (power : Int) : Binary64 :=
  .ofDecimal negative (ofDigits 10 (whole ++ fraction)) (power - fraction.length)

def integer (negative : Bool) (n : Nat) : Value := .integer (signed negative n)

def real (negative : Bool) (whole fraction : List Char) (power : Int) : Value := .real (decimal negative whole fraction power)

/-- A sign, if there is one, and what follows. -/
def splitSign : List Char → Bool × List Char
  | '-' :: r => (true, r)
  | '+' :: r => (false, r)
  | r => (false, r)

def exponent (cs : List Char) : Int :=
  let (negative, ds) := splitSign cs
  if negative then -(ofDigits 10 ds : Int) else ofDigits 10 ds

end Number

namespace Value

mutual

/-- Whether the value can be shown: all integers in it are short. -/
def isShown : Value → Bool
  | integer n => Number.isShort n
  | list vs => areShown vs
  | table es => entriesShown es
  | _ => true

def areShown : List Value → Bool
  | [] => true
  | v :: r => isShown v && areShown r

def entriesShown : List (String × Value) → Bool
  | [] => true
  | (_, v) :: r => isShown v && entriesShown r

end

end Value

end TagAlias
