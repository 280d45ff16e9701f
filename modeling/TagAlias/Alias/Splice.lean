import TagAlias.Alias.Plan
import TagAlias.Text.Utf8
/-!
# Carrying out a plan

The declarations of a plan are put into a source text from the last point to the first, so that no offset moves before
its turn.  A point without names does nothing; one with names has to lie within the text.
-/
namespace TagAlias

namespace Alias

def declaration (stem name : String) : String := "const " ++ name ++ " = this." ++ stem ++ name ++ ";"

def render (stem : String) (p : InsertionPoint) : String :=
  p.lead ++ String.join (p.names.map (fun n => declaration stem n ++ p.separator))

/-- Puts in the points, which come in descending order; `done` is the text from offset `last` on with all that is behind
it put in. -/
def spliceFrom (src : Bytes) (stem : String) (last : Nat) (done : Bytes) : List InsertionPoint → Except Refusal Bytes
  | [] => .ok (src.slice 0 last ++ done)
  | p :: r =>
    if p.names.isEmpty then spliceFrom src stem last done r
    else if 0 ≤ p.offset ∧ p.offset ≤ last then
      spliceFrom src stem p.offset.toNat (Bytes.ofString (render stem p) ++ src.slice p.offset.toNat last ++ done) r
    else .error (.outside p.offset last)

end Alias

/-- The source with the plan's declarations in it. -/
def Plan.splice (p : Plan) (stem : String) (src : Bytes) : Except Refusal Bytes :=
  Alias.spliceFrom src stem src.length [] p.descending

end TagAlias
