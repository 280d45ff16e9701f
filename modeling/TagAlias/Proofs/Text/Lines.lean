import Mathlib.Data.List.TakeWhile
import TagAlias.Text.Lines
/-!
# Lines read back

Lines without boundaries in them, each ended by a line feed, are read back as they are (`lines_ended`).  Taking blanks
away at the ends changes a text only if one stands there (`strip_eq_self_iff`).
-/
namespace TagAlias.Text

/-! ## Lines -/

theorem linesFrom_append {l : List Char} (h : ∀ c ∈ l, isBoundary c = false) (line rest : List Char) :
    linesFrom line (l ++ rest) = linesFrom (l.reverse ++ line) rest := by
  induction l generalizing line with
  | nil => rfl
  | cons c l ih =>
    obtain ⟨hc, hl⟩ := List.forall_mem_cons.1 h
    have hreturn : c ≠ '\r' := by rintro rfl; cases hc
    rw [List.cons_append, linesFrom, if_neg (by simp [hc]), ih hl]
    · simp
    · exact fun _ heq => absurd heq hreturn

theorem linesFrom_lineFeed (line rest : List Char) : linesFrom line ('\n' :: rest) = line.reverse :: linesFrom [] rest := by
  rw [linesFrom, if_pos (by decide)]
  exact fun _ heq => absurd heq (by decide)

/-- **Lines that are each ended by a line feed are read back.** -/
theorem lines_ended {ls : List (List Char)} (h : ∀ l ∈ ls, ∀ c ∈ l, isBoundary c = false) :
    lines (ls.flatMap (· ++ ['\n'])) = ls := by
  induction ls with
  | nil => rfl
  | cons l ls ih =>
    obtain ⟨hl, hls⟩ := List.forall_mem_cons.1 h
    have hrest := ih hls
    unfold lines at hrest ⊢
    rw [List.flatMap_cons, List.append_assoc, linesFrom_append hl, List.singleton_append, linesFrom_lineFeed, hrest]
    simp

/-! ## Blanks at the ends -/

theorem strip_isPrefix (cs : List Char) : strip cs <+: cs.dropWhile isBlank := by
  rw [← List.reverse_suffix, strip, List.reverse_reverse]
  exact List.dropWhile_suffix _

theorem strip_infix (cs : List Char) : strip cs <:+: cs := by
  have hfront : cs.dropWhile isBlank <:+ cs := List.dropWhile_suffix _
  exact (strip_isPrefix cs).isInfix.trans hfront.isInfix

/-- **A text keeps its ends exactly if no blank stands there.** -/
theorem strip_eq_self_iff {cs : List Char} :
    strip cs = cs ↔ (∀ c ∈ cs.head?, isBlank c = false) ∧ ∀ c ∈ cs.getLast?, isBlank c = false := by
  have hfront : ∀ l : List Char, l.dropWhile isBlank = l ↔ ∀ c ∈ l.head?, isBlank c = false := by
    intro l
    rw [List.dropWhile_eq_self_iff]
    cases l <;> simp
  constructor
  · intro h
    have hdrop : cs.dropWhile isBlank = cs := by
      refine (List.dropWhile_suffix _).eq_of_length_le ?_
      calc cs.length = (strip cs).length := by rw [h]
        _ ≤ (cs.dropWhile isBlank).length := (strip_isPrefix cs).length_le
    rw [strip, hdrop, List.reverse_eq_iff] at h
    exact ⟨(hfront cs).1 hdrop, by simpa using (hfront cs.reverse).1 h⟩
  · rintro ⟨hhead, hlast⟩
    rw [strip, (hfront cs).2 hhead, (hfront cs.reverse).2 (by simpa using hlast), List.reverse_reverse]

end TagAlias.Text
