/-!
# Sets of characters given by ranges

The sets that are too large for a formula are lists of ranges in ascending order.
-/
namespace TagAlias.Text

/-- Whether a number lies in one of the ranges, whose ends belong to them. -/
def inRanges (rs : List (Nat × Nat)) (n : Nat) : Bool := rs.any (fun r => r.1 ≤ n && n ≤ r.2)

end TagAlias.Text
