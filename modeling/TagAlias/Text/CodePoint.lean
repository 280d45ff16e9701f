import TagAlias.Text.Decimal
/-!
# Code points

A text of a message may hold one half of a surrogate pair alone, which is no character.  So its elements are code points:
characters, and halves that stand alone.
-/
namespace TagAlias

inductive CodePoint where
  | char (c : Char)
  /-- Half of a pair, by its distance from the first one. -/
  | half (n : Fin 0x800)
  deriving DecidableEq, Repr

namespace CodePoint

instance : Coe Char CodePoint := ⟨char⟩

/-- The code point of a number up to 0x10FFFF. -/
def ofNat (n : Nat) : CodePoint :=
  if h : 0xD800 ≤ n ∧ n < 0xE000 then half ⟨n - 0xD800, by omega⟩ else char (Char.ofNat n)

def char? : CodePoint → Option Char
  | char c => some c
  | half _ => none

def isDecimal (c : CodePoint) : Bool := c.char?.any Text.isDecimal

end CodePoint

abbrev Str := List CodePoint

namespace Str

def ofString (s : String) : Str := s.toList.map .char

instance : Coe String Str := ⟨ofString⟩

@[simp] theorem ofString_inj {s t : String} : ofString s = ofString t ↔ s = t := by
  rw [ofString, ofString, List.map_inj_right (fun _ _ h => CodePoint.char.inj h), String.toList_inj]

/-- The characters, without halves. -/
def chars (s : Str) : List Char := s.filterMap CodePoint.char?

/-- The text, if no half stands in it. -/
def toString? (s : Str) : Option String := (s.mapM CodePoint.char?).map String.ofList

@[simp] theorem toString?_ofString (s : String) : toString? (ofString s) = some s := by
  have h : ∀ cs : List Char, (cs.map CodePoint.char).mapM CodePoint.char? = some cs := by
    intro cs
    induction cs with
    | nil => rfl
    | cons c cs ih => simp [List.mapM_cons, ih, CodePoint.char?]
  simp [toString?, ofString, h]

end Str

end TagAlias
