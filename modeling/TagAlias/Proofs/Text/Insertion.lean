import TagAlias.Proofs.Text.Edits
/-!
# Insertions one after the other

An editor that puts insertions in one by one has to move each on by what it has put in before.  Where their offsets ascend,
it gets the text with the insertions woven in (`insertAll_eq_weave`).
-/
namespace TagAlias

/-- A text with something put in at an offset. -/
def Bytes.insertAt (src : Bytes) (o : Nat) (t : Bytes) : Bytes := src.take o ++ (t ++ src.drop o)

namespace Edits

/-- Puts insertions in one after the other, each at its offset and as far behind it as the text has grown before. -/
def insertAll (src : Bytes) (grown : Nat) : Edits → Bytes
  | [] => src
  | e :: es => insertAll (src.insertAt (e.1 + grown) e.2) (grown + e.2.length) es

/-- What stands in front of the insertions stays: `front` is the text up to `pos` with what was put in there. -/
theorem insertAll_append (src : Bytes) : ∀ (es : Edits) (pos grown : Nat) (front : Bytes), Within pos src es →
    front.length = pos + grown → insertAll (front ++ src.drop pos) grown es = front ++ weave src pos es
  | [], _, _, _, _, _ => rfl
  | e :: es, pos, grown, front, h, hfront => by
    obtain ⟨hpos, hin⟩ := h.head
    have hat : e.1 + grown = front.length + (e.1 - pos) := by omega
    have hdrop : (src.drop pos).drop (e.1 - pos) = src.drop e.1 := by
      rw [List.drop_drop]
      congr 1; omega
    have hinsert : Bytes.insertAt (front ++ src.drop pos) (e.1 + grown) e.2 =
        (front ++ src.slice pos e.1 ++ e.2) ++ src.drop e.1 := by
      rw [Bytes.insertAt, hat, List.take_length_add_append, List.drop_length_add_append, hdrop, Bytes.slice]
      simp only [List.append_assoc]
    have hlength : (front ++ src.slice pos e.1 ++ e.2).length = e.1 + (grown + e.2.length) := by
      rw [List.length_append, List.length_append, src.length_slice hin]
      omega
    rw [insertAll, hinsert, insertAll_append src es e.1 _ _ h.tail hlength, weave]
    simp only [List.append_assoc]

/-- **Put in one after the other, insertions at ascending offsets are woven in.** -/
theorem insertAll_eq_weave {src : Bytes} {es : Edits} (h : Within 0 src es) : insertAll src 0 es = weave src 0 es :=
  insertAll_append src es 0 0 [] h rfl

end Edits
end TagAlias
