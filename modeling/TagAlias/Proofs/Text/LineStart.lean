import Mathlib.Data.List.TakeWhile
import TagAlias.Text.Lines
/-!
# Where a line begins

The line of an offset begins behind the last line feed in front of it (`lineStart_eq`), and at the beginning of the text if
there is none (`lineStart_eq_zero`).
-/
namespace TagAlias
namespace Text

/-- What has a line feed in it is split by the last one. -/
theorem exists_last_lineFeed {bs : Bytes} (h : lineFeed ∈ bs) :
    ∃ before indent, bs = before ++ lineFeed :: indent ∧ lineFeed ∉ indent := by
  obtain ⟨front, back, hsplit, hnot⟩ := List.eq_append_cons_of_mem (List.mem_reverse.2 h)
  refine ⟨back.reverse, front.reverse, ?_, by rwa [List.mem_reverse]⟩
  rw [← List.reverse_reverse bs, hsplit, List.reverse_append, List.reverse_cons, List.append_assoc, List.singleton_append]

theorem lineStart_eq {src : Bytes} {o : Nat} {before indent : Bytes} (h : src.take o = before ++ lineFeed :: indent)
    (hnot : lineFeed ∉ indent) : lineStart src o = before.length + 1 := by
  have hindent : ∀ b ∈ indent.reverse, (b != lineFeed) = true := fun b hb =>
    bne_iff_ne.2 (fun heq => hnot (List.mem_reverse.1 (heq ▸ hb)))
  have hline : (src.take o).reverse.takeWhile (· != lineFeed) = indent.reverse := by
    rw [h, List.reverse_append, List.reverse_cons, List.append_assoc, List.takeWhile_append_of_pos hindent, List.singleton_append,
      List.takeWhile_cons_of_neg (by simp), List.append_nil]
  rw [lineStart, hline, h, List.length_append, List.length_cons, List.length_reverse]
  omega

theorem lineStart_eq_zero {src : Bytes} {o : Nat} (h : lineFeed ∉ src.take o) : lineStart src o = 0 := by
  have hline : (src.take o).reverse.takeWhile (· != lineFeed) = (src.take o).reverse :=
    List.takeWhile_eq_self_iff.2 (fun b hb => bne_iff_ne.2 (fun heq => h (List.mem_reverse.1 (heq ▸ hb))))
  rw [lineStart, hline, List.length_reverse, Nat.sub_self]

end Text
end TagAlias
