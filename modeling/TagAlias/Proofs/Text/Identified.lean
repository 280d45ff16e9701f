import TagAlias.Proofs.Syntax.Faulty
/-!
# What a position tells of an offset

A position leads back to its offset: the line of its number, of the lines of the text between line feeds, goes on behind its
column as the text goes on behind the offset (`exists_line`).  Positions come in the order of their offsets
(`before_iff`), so no two offsets have the same.
-/
namespace TagAlias

open Utf8 (encode)

namespace Text

/-! ## Lines between line feeds -/

theorem length_splitOn (a : Char) (cs : List Char) : (cs.splitOn a).length = cs.count a + 1 := by
  induction cs with
  | nil => rfl
  | cons c cs ih =>
    rw [List.splitOn_cons_eq_if_modifyHead, List.count_cons]
    split
    · rw [List.length_cons, ih]
    · rw [List.length_modifyHead, ih, Nat.add_zero]

/-- The first line ends in front of the first line feed. -/
theorem getElem?_zero_splitOn (a : Char) (cs : List Char) : (cs.splitOn a)[0]? = some (cs.takeWhile (· != a)) := by
  by_cases h : a ∈ cs
  · obtain ⟨line, rest, rfl, hnot⟩ := List.eq_append_cons_of_mem h
    have hline : ∀ c ∈ line, (c != a) = true := fun c hc => bne_iff_ne.2 (fun heq => hnot (heq ▸ hc))
    rw [List.splitOn_append_cons_self_of_not_mem hnot, List.takeWhile_append_of_pos hline]
    simp
  · have hall : cs.takeWhile (· != a) = cs :=
      List.takeWhile_eq_self_iff.2 (fun c hc => bne_iff_ne.2 (fun heq => h (heq ▸ hc)))
    rw [List.splitOn_eq_singleton h, hall]
    rfl

/-- **A text goes on, on the line where it is cut, up to the next line feed.** -/
theorem getElem?_splitOn_cut (before rest : List Char) : ((before ++ rest).splitOn '\n')[before.count '\n']? =
    some (lastLine before ++ rest.takeWhile (· != '\n')) := by
  have hline : ((lastLine before ++ rest).splitOn '\n')[0]? = some (lastLine before ++ rest.takeWhile (· != '\n')) := by
    have hall : ∀ c ∈ lastLine before, (c != '\n') = true :=
      fun c hc => bne_iff_ne.2 (fun heq => lineFeed_not_mem_lastLine before (heq ▸ hc))
    rw [getElem?_zero_splitOn, List.takeWhile_append_of_pos hall]
  by_cases h : '\n' ∈ before
  · obtain ⟨front, hfront⟩ := exists_eq_lastLine h
    have hcount : before.count '\n' = (front.splitOn '\n').length := by
      conv => lhs; rw [hfront]
      rw [length_splitOn, List.count_append, List.count_cons_self,
        List.count_eq_zero_of_not_mem (lineFeed_not_mem_lastLine before)]
    conv => lhs; rw [hcount, hfront]
    rw [List.append_assoc, List.cons_append, List.splitOn_append_cons_self, List.getElem?_append_right (Nat.le_refl _),
      Nat.sub_self, hline]
  · rw [List.count_eq_zero_of_not_mem h]
    rw [lastLine_of_not_mem h] at hline ⊢
    exact hline

theorem lastLine_append {mid : List Char} (h : '\n' ∉ mid) (before : List Char) :
    lastLine (before ++ mid) = lastLine before ++ mid := by
  have hall : ∀ c ∈ mid.reverse, (c != '\n') = true :=
    fun c hc => bne_iff_ne.2 (fun heq => h (List.mem_reverse.1 (heq ▸ hc)))
  rw [lastLine, List.reverse_append, List.takeWhile_append_of_pos hall, List.reverse_append, List.reverse_reverse, lastLine]

/-- Up to the next line feed, over bytes and over characters. -/
theorem takeWhile_encode (cs : List Char) : (encode cs).takeWhile (· != lineFeed) = encode (cs.takeWhile (· != '\n')) := by
  induction cs with
  | nil => rfl
  | cons c cs ih =>
    rw [Utf8.encode_cons, List.takeWhile_cons]
    by_cases hc : c = '\n'
    · subst hc
      rfl
    · have hall : ∀ b ∈ String.utf8EncodeChar c, (b != lineFeed) = true :=
        fun b hb => bne_iff_ne.2 (fun heq => hc (lineFeed_mem_encodeChar.1 (heq ▸ hb)))
      rw [List.takeWhile_append_of_pos hall, ih, if_pos (bne_iff_ne.2 hc), Utf8.encode_cons]

end Text

namespace Position

open Text (lastLine lineFeed)

/-! ## The position of a cut -/

/-- On an earlier line, or further to the left on the same. -/
def Before (p q : Position) : Prop := p.line < q.line ∨ p.line = q.line ∧ p.column < q.column

instance (p q : Position) : Decidable (p.Before q) :=
  inferInstanceAs (Decidable (p.line < q.line ∨ p.line = q.line ∧ p.column < q.column))

theorem not_before_self (p : Position) : ¬ p.Before p := by
  rintro (h | ⟨-, h⟩) <;> exact Nat.lt_irrefl _ h

theorem Before.asymm {p q : Position} (h : p.Before q) : ¬ q.Before p := by
  unfold Before at *
  omega

/-- The position behind the characters. -/
def behind (before : List Char) : Position := ⟨before.count '\n' + 1, (lastLine before).length + 1⟩

theorem behind_before {mid : List Char} (h : mid ≠ []) (before : List Char) :
    (behind before).Before (behind (before ++ mid)) := by
  unfold behind Before
  dsimp only
  rw [List.count_append]
  by_cases hline : '\n' ∈ mid
  · have := List.count_pos_iff.2 hline
    exact .inl (by omega)
  · have := List.length_pos_iff.2 h
    rw [List.count_eq_zero_of_not_mem hline, Text.lastLine_append hline, List.length_append]
    exact .inr ⟨rfl, by omega⟩

/-- Of two cuts of a text the one with fewer bytes in front comes first. -/
theorem behind_before_of_lt {before before' rest rest' : List Char} (htext : before ++ rest = before' ++ rest')
    (hlt : (encode before).length < (encode before').length) : (behind before).Before (behind before') := by
  rcases List.append_eq_append_iff.1 htext with ⟨mid, rfl, -⟩ | ⟨mid, rfl, -⟩
  · refine behind_before (fun hnil => ?_) before
    rw [hnil, List.append_nil] at hlt
    exact Nat.lt_irrefl _ hlt
  · rw [Utf8.encode_append, List.length_append] at hlt
    omega

/-! ## Boundaries -/

variable {text : String} {o o' : Nat}

/-- A boundary cuts the text and has the position behind its front. -/
theorem exists_behind (h : Bytes.IsBoundary (Bytes.ofString text) o) : ∃ before rest, text.toList = before ++ rest ∧
    (encode before).length = o ∧ ofOffset (Bytes.ofString text) o = .ok (behind before) := by
  obtain ⟨before, rest, htext, rfl⟩ := Alias.exists_cut h
  refine ⟨before, rest, htext, rfl, ?_⟩
  rw [Bytes.ofString, htext]
  exact ofOffset_cut before rest

/-- **Behind its column, the line of a position is the rest of the line from the offset on.** -/
theorem exists_line (h : Bytes.IsBoundary (Bytes.ofString text) o) :
    ∃ p line, ofOffset (Bytes.ofString text) o = .ok p ∧ 1 ≤ p.line ∧ 1 ≤ p.column ∧
      (text.toList.splitOn '\n')[p.line - 1]? = some line ∧ p.column - 1 ≤ line.length ∧
      encode (line.drop (p.column - 1)) = ((Bytes.ofString text).drop o).takeWhile (· != lineFeed) := by
  obtain ⟨before, rest, htext, rfl, hplace⟩ := exists_behind h
  refine ⟨behind before, lastLine before ++ rest.takeWhile (· != '\n'), hplace, Nat.le_add_left 1 _, Nat.le_add_left 1 _,
    ?_, ?_, ?_⟩
  · rw [htext]
    exact Text.getElem?_splitOn_cut before rest
  · rw [List.length_append]
    exact Nat.le_add_right _ _
  · have hrest : (Bytes.ofString text).drop (encode before).length = encode rest := by
      rw [Bytes.ofString, htext, Utf8.encode_append, List.drop_left]
    rw [hrest, Text.takeWhile_encode]
    exact congrArg encode List.drop_left

section

variable {p q : Position} (hp : ofOffset (Bytes.ofString text) o = .ok p) (hq : ofOffset (Bytes.ofString text) o' = .ok q)
  (h : Bytes.IsBoundary (Bytes.ofString text) o) (h' : Bytes.IsBoundary (Bytes.ofString text) o')

include hp hq h h'

theorem before_of_lt (hlt : o < o') : p.Before q := by
  obtain ⟨before, rest, htext, rfl, hplace⟩ := exists_behind h
  obtain ⟨before', rest', htext', rfl, hplace'⟩ := exists_behind h'
  obtain rfl : behind before = p := Except.ok.inj (hplace.symm.trans hp)
  obtain rfl : behind before' = q := Except.ok.inj (hplace'.symm.trans hq)
  exact behind_before_of_lt (htext.symm.trans htext') hlt

/-- **Positions come in the order of their offsets.** -/
theorem before_iff : p.Before q ↔ o < o' := by
  refine ⟨fun hbefore => ?_, before_of_lt hp hq h h'⟩
  rcases Nat.lt_trichotomy o o' with hlt | rfl | hgt
  · exact hlt
  · obtain rfl : p = q := Except.ok.inj (hp.symm.trans hq)
    exact absurd hbefore p.not_before_self
  · exact absurd hbefore (before_of_lt hq hp h' h hgt).asymm

/-- Two offsets have two positions. -/
theorem eq_iff : p = q ↔ o = o' := by
  constructor
  · rintro rfl
    rcases Nat.lt_trichotomy o o' with hlt | heq | hgt
    · exact absurd (before_of_lt hp hq h h' hlt) p.not_before_self
    · exact heq
    · exact absurd (before_of_lt hq hp h' h hgt) p.not_before_self
  · rintro rfl
    exact Except.ok.inj (hp.symm.trans hq)

end

/-! ## The positions of nodes -/

/-- **A position tells where a node begins.**  Nodes that begin at characters have positions.  Of the lines between the line
feeds of the text, the one that a position tells goes on, behind the characters that its column counts, with what stands from
the beginning of the node up to the end of the line.  Two positions are the same only if the nodes begin at the same offset,
and positions come in the order of the offsets. -/
theorem identifies_start (text : String) {m n : Node} (hm : Bytes.IsBoundary (Bytes.ofString text) m.start)
    (hn : Bytes.IsBoundary (Bytes.ofString text) n.start) :
    ∃ p q, ofOffset (Bytes.ofString text) m.start = .ok p ∧ ofOffset (Bytes.ofString text) n.start = .ok q ∧
      1 ≤ p.line ∧ 1 ≤ p.column ∧
      (∃ line, (text.toList.splitOn '\n')[p.line - 1]? = some line ∧ p.column - 1 ≤ line.length ∧
        encode (line.drop (p.column - 1)) = ((Bytes.ofString text).drop m.start).takeWhile (· != lineFeed)) ∧
      (p = q ↔ m.start = n.start) ∧ (p.Before q ↔ m.start < n.start) := by
  obtain ⟨p, line, hp, hrow, hcolumn, hline, hle, hrest⟩ := exists_line hm
  obtain ⟨q, -, hq, -⟩ := exists_line hn
  exact ⟨p, q, hp, hq, hrow, hcolumn, ⟨line, hline, hle, hrest⟩, eq_iff hp hq hm hn, before_iff hp hq hm hn⟩

/-- A byte order mark and a character of two bytes count for one column each, and the carriage return of the first line is no
part of the second. -/
theorem identifies_start_marked :
    let text := "\uFEFFé\r\n𝄞x"
    let m := Node.mk ⟨"identifier", 3, 5, "", true, false⟩ []
    let n := Node.mk ⟨"identifier", 11, 12, "", true, false⟩ []
    ofOffset (Bytes.ofString text) m.start = .ok ⟨1, 2⟩ ∧ ofOffset (Bytes.ofString text) n.start = .ok ⟨2, 2⟩ ∧
      (text.toList.splitOn '\n')[0]? = some ['\uFEFF', 'é', '\r'] ∧
      encode ['é', '\r'] = ((Bytes.ofString text).drop m.start).takeWhile (· != lineFeed) ∧
      (⟨1, 2⟩ : Position).Before ⟨2, 2⟩ := by
  intro text m n
  obtain ⟨p, q, hp, hq, -, -, ⟨line, hline, -, hrest⟩, -, hbefore⟩ :=
    identifies_start text (m := m) (n := n) (by decide +kernel) (by decide +kernel)
  have hplace : ofOffset (Bytes.ofString text) m.start = .ok ⟨1, 2⟩ := by decide +kernel
  have hplace' : ofOffset (Bytes.ofString text) n.start = .ok ⟨2, 2⟩ := by decide +kernel
  obtain rfl : p = ⟨1, 2⟩ := Except.ok.inj (hp.symm.trans hplace)
  obtain rfl : q = ⟨2, 2⟩ := Except.ok.inj (hq.symm.trans hplace')
  have hfirst : (text.toList.splitOn '\n')[0]? = some ['\uFEFF', 'é', '\r'] := by decide +kernel
  obtain rfl : line = ['\uFEFF', 'é', '\r'] := Option.some.inj (hline.symm.trans hfirst)
  exact ⟨hp, hq, hline, hrest, hbefore.2 (by decide)⟩

end Position
end TagAlias
