import Mathlib.Data.List.Count
import TagAlias.Proofs.Text.Edits
/-!
# Where a cut is placed

A text can be cut between two of its characters.  The line of a cut counts the line feeds in front of it, and its column the
characters since the last of them (`ofOffset_cut`): a line feed is no part of any other character, so over bytes and over
characters there are the same lines.
-/
namespace TagAlias

open Utf8 (encode Encodes)

namespace Text

def lastLine (cs : List Char) : List Char := (cs.reverse.takeWhile (· != '\n')).reverse

theorem lineFeed_not_mem_lastLine (cs : List Char) : '\n' ∉ lastLine cs := by
  intro h
  have := List.mem_takeWhile_imp (List.mem_reverse.1 h)
  simp at this

theorem lastLine_of_not_mem {cs : List Char} (h : '\n' ∉ cs) : lastLine cs = cs := by
  have hall : cs.reverse.takeWhile (· != '\n') = cs.reverse :=
    List.takeWhile_eq_self_iff.2 (fun c hc => bne_iff_ne.2 (fun heq => h (List.mem_reverse.1 (heq ▸ hc))))
  rw [lastLine, hall, List.reverse_reverse]

/-- Text with a line feed in it has its last line behind the last one. -/
theorem exists_eq_lastLine {cs : List Char} (h : '\n' ∈ cs) : ∃ front, cs = front ++ '\n' :: lastLine cs := by
  obtain ⟨line, front, hsplit, hnot⟩ := List.eq_append_cons_of_mem (List.mem_reverse.2 h)
  have hcs : cs = front.reverse ++ '\n' :: line.reverse := by
    rw [← List.reverse_reverse cs, hsplit]
    simp
  have hline : cs.reverse.takeWhile (· != '\n') = line := by
    have hall : ∀ c ∈ line, (c != '\n') = true := fun c hc => bne_iff_ne.2 (fun heq => hnot (by rwa [← heq]))
    rw [hsplit, List.takeWhile_append_of_pos hall]
    simp
  exact ⟨front.reverse, by rw [lastLine, hline]; exact hcs⟩

/-! ## Line feeds in characters -/

/-- No character but the line feed has its byte. -/
theorem lineFeed_mem_encodeChar {c : Char} : lineFeed ∈ String.utf8EncodeChar c ↔ c = '\n' := by
  constructor
  · intro h
    have htail : ∀ {b : UInt8}, Utf8.isTail b = true → lineFeed ≠ b := by
      rintro b hb rfl
      exact absurd hb (by decide)
    have hbegins := Utf8.begins_encodeChar c []
    rw [List.append_nil] at hbegins
    generalize String.utf8EncodeChar c = bs at h hbegins
    cases hbegins with
    | one _ _ => rw [← List.mem_singleton.1 h]; rfl
    | two _ hlow _ hb =>
      have hne : ∀ {a : UInt8}, 0xC2 ≤ a.toNat → lineFeed ≠ a := by
        rintro a ha rfl
        exact absurd ha (by decide)
      simp [hne hlow, htail hb] at h
    | three _ hlow _ hb hc =>
      have hne : ∀ {a : UInt8}, 0xE0 ≤ a.toNat → lineFeed ≠ a := by
        rintro a ha rfl
        exact absurd ha (by decide)
      simp [hne hlow, htail ((Utf8.isSecond_iff _ _).1 hb).1, htail hc] at h
    | four _ hlow _ hb hc hd =>
      have hne : ∀ {a : UInt8}, 0xF0 ≤ a.toNat → lineFeed ≠ a := by
        rintro a ha rfl
        exact absurd ha (by decide)
      simp [hne hlow, htail ((Utf8.isSecond_iff _ _).1 hb).1, htail hc, htail hd] at h
  · rintro rfl
    decide

theorem count_lineFeed_encode (cs : List Char) : (encode cs).count lineFeed = cs.count '\n' := by
  induction cs with
  | nil => rfl
  | cons c cs ih =>
    rw [Utf8.encode_cons, List.count_append, ih, List.count_cons, Nat.add_comm]
    by_cases hc : c = '\n'
    · subst hc; rfl
    · rw [List.count_eq_zero_of_not_mem (fun h => hc (lineFeed_mem_encodeChar.1 h))]
      simp [hc]

theorem lineFeed_mem_encode {cs : List Char} : lineFeed ∈ encode cs ↔ '\n' ∈ cs := by
  rw [← List.count_pos_iff, count_lineFeed_encode, List.count_pos_iff]

end Text

/-! ## Cuts -/

open Text (lastLine lineFeed)

/-- **A cut is placed by the line feeds in front of it and by the characters since the last.** -/
theorem ofOffset_cut (before rest : List Char) : Position.ofOffset (encode (before ++ rest)) (encode before).length =
    .ok ⟨before.count '\n' + 1, (lastLine before).length + 1⟩ := by
  have htake : (encode (before ++ rest)).take (encode before).length = encode before := by
    rw [Utf8.encode_append, List.take_left]
  have hrow : Text.rowOf (encode (before ++ rest)) (encode before).length = before.count '\n' := by
    rw [Text.rowOf, htake, Text.count_lineFeed_encode]
  have hline : (encode (before ++ rest)).slice (Text.lineStart (encode (before ++ rest)) (encode before).length)
      (encode before).length = encode (lastLine before) := by
    rw [Bytes.slice_eq_drop, htake]
    by_cases h : '\n' ∈ before
    · obtain ⟨front, hfront⟩ := Text.exists_eq_lastLine h
      have hsplit : encode before = encode front ++ lineFeed :: encode (lastLine before) := by
        conv => lhs; rw [hfront, Utf8.encode_append, Utf8.encode_cons]
        rfl
      have hnot : lineFeed ∉ encode (lastLine before) :=
        fun hmem => Text.lineFeed_not_mem_lastLine before (Text.lineFeed_mem_encode.1 hmem)
      rw [Text.lineStart_eq (htake.trans hsplit) hnot, hsplit]
      simp
    · have hnot : lineFeed ∉ (encode (before ++ rest)).take (encode before).length := by
        rwa [htake, Text.lineFeed_mem_encode]
      rw [Text.lineStart_eq_zero hnot, List.drop_zero, Text.lastLine_of_not_mem h]
  rw [Position.ofOffset, hline, Utf8.decode_encode, hrow]
  rfl

end TagAlias
