import TagAlias.Proofs.Text.Utf8
/-!
# Texts with insertions

`Edits.weave` is a text with insertions put in at ascending offsets.  What begins at an offset of the text begins behind
all that is put in up to there (`startOf`), and what ends at an offset ends in front of what is put in there (`stopOf`).  A
stretch of the text with no insertion inside stays as it is (`slice_weave`), an insertion is found where it was put in
(`slice_weave_insertion`), and where the text could be cut, the new one can (`encodes_take_weave`).
-/
namespace TagAlias

namespace Bytes

theorem slice_eq_drop (src : Bytes) (i j : Nat) : src.slice i j = (src.take j).drop i := List.drop_take.symm

theorem slice_zero (src : Bytes) (j : Nat) : src.slice 0 j = src.take j := by rw [slice_eq_drop, List.drop_zero]

theorem slice_append_left {as bs : Bytes} {i j : Nat} (h : j ≤ as.length) : (as ++ bs).slice i j = as.slice i j := by
  unfold slice
  by_cases hij : i ≤ j
  · rw [List.drop_append_of_le_length (by omega), List.take_append_of_le_length (by rw [List.length_drop]; omega)]
  · rw [show j - i = 0 by omega, List.take_zero, List.take_zero]

theorem slice_append_right {as bs : Bytes} {i j : Nat} (h : as.length ≤ i) :
    (as ++ bs).slice i j = bs.slice (i - as.length) (j - as.length) := by
  unfold slice
  rw [List.drop_append, List.drop_of_length_le h, List.nil_append]
  by_cases hj : as.length ≤ j
  · rw [show j - as.length - (i - as.length) = j - i by omega]
  · rw [show j - i = 0 by omega, show j - as.length - (i - as.length) = 0 by omega]

theorem length_slice (src : Bytes) {i j : Nat} (h : j ≤ src.length) : (src.slice i j).length = j - i := by
  rw [slice, List.length_take, List.length_drop]; omega

theorem slice_slice (src : Bytes) {i j a b : Nat} (hb : b ≤ j) (ha : i ≤ a) :
    (src.slice i j).slice (a - i) (b - i) = src.slice a b := by
  unfold slice
  rw [List.drop_take, List.drop_drop, List.take_take, show i + (a - i) = a by omega]
  congr 1; omega

theorem slice_drop (src : Bytes) {i a b : Nat} (ha : i ≤ a) : Bytes.slice (src.drop i) (a - i) (b - i) = src.slice a b := by
  unfold slice
  rw [List.drop_drop, show i + (a - i) = a by omega, show b - i - (a - i) = b - a by omega]

theorem slice_eq_nil (src : Bytes) {i j : Nat} (h : j ≤ i) : src.slice i j = [] := by
  unfold slice
  rw [show j - i = 0 by omega, List.take_zero]

end Bytes

/-- Insertions into a text: offsets with what is put in there. -/
abbrev Edits := List (Nat × Bytes)

namespace Edits

/-- The text from an offset on, with the insertions in it. -/
def weave (src : Bytes) (pos : Nat) : Edits → Bytes
  | [] => src.drop pos
  | e :: es => src.slice pos e.1 ++ (e.2 ++ weave src e.1 es)

/-- How much is put in at offsets for which `p` holds. -/
def gain (p : Nat → Bool) : Edits → Nat
  | [] => 0
  | e :: es => (if p e.1 then e.2.length else 0) + gain p es

/-- Where what begins at an offset begins afterwards. -/
def startOf (es : Edits) (o : Nat) : Nat := o + es.gain (· ≤ o)

/-- Where what ends at an offset ends afterwards. -/
def stopOf (es : Edits) (o : Nat) : Nat := o + es.gain (· < o)

/-- The offsets ascend from the given one and lie within the text. -/
structure Within (pos : Nat) (src : Bytes) (es : Edits) : Prop where
  ascending : es.Pairwise (·.1 < ·.1)
  from_ : ∀ e ∈ es, pos ≤ e.1
  inside : ∀ e ∈ es, e.1 ≤ src.length

theorem Within.head {pos : Nat} {src : Bytes} {e : Nat × Bytes} {es : Edits} (h : Within pos src (e :: es)) :
    pos ≤ e.1 ∧ e.1 ≤ src.length :=
  ⟨h.from_ e List.mem_cons_self, h.inside e List.mem_cons_self⟩

theorem Within.tail {pos : Nat} {src : Bytes} {e : Nat × Bytes} {es : Edits} (h : Within pos src (e :: es)) :
    Within e.1 src es :=
  ⟨(List.pairwise_cons.1 h.ascending).2, fun e' he' => Nat.le_of_lt ((List.pairwise_cons.1 h.ascending).1 e' he'),
    fun e' he' => h.inside e' (List.mem_cons_of_mem _ he')⟩

theorem gain_eq_zero {p : Nat → Bool} : ∀ {es : Edits}, (∀ e ∈ es, p e.1 = false) → es.gain p = 0
  | [], _ => rfl
  | e :: es, h => by
    rw [gain, h e List.mem_cons_self, gain_eq_zero (fun e' he' => h e' (List.mem_cons_of_mem _ he'))]; rfl

theorem gain_congr {p q : Nat → Bool} : ∀ {es : Edits}, (∀ e ∈ es, p e.1 = q e.1) → es.gain p = es.gain q
  | [], _ => rfl
  | e :: es, h => by
    rw [gain, gain, h e List.mem_cons_self, gain_congr (fun e' he' => h e' (List.mem_cons_of_mem _ he'))]

theorem gain_mono {p q : Nat → Bool} (h : ∀ o, p o = true → q o = true) : ∀ es : Edits, es.gain p ≤ es.gain q
  | [] => Nat.le_refl _
  | e :: es => by
    have := gain_mono h es
    rw [gain, gain]
    cases hp : p e.1 with
    | false => rw [if_neg Bool.false_ne_true]; omega
    | true => rw [if_pos rfl, if_pos (h _ hp)]; omega

theorem stopOf_le_startOf (es : Edits) {a b : Nat} (h : b ≤ a) : es.stopOf b ≤ es.startOf a := by
  have := gain_mono (p := (· < b)) (q := (· ≤ a)) (fun o ho => by simp at ho ⊢; omega) es
  unfold startOf stopOf; omega

/-- Nothing is put in between two offsets, the first of which counts and the second does not. -/
theorem gain_eq_of_gap {es : Edits} {a b : Nat} (hab : a < b) (h : ∀ e ∈ es, ¬ (a < e.1 ∧ e.1 < b)) :
    es.gain (· < b) = es.gain (· ≤ a) :=
  gain_congr (fun e he => by
    have := h e he
    simp only [decide_eq_decide]; omega)

/-! ## What becomes of a stretch of the text -/

theorem slice_weave_from (src : Bytes) : ∀ (es : Edits) (pos : Nat), Within pos src es → ∀ {a b : Nat}, pos ≤ a → a < b →
    b ≤ src.length → (∀ e ∈ es, ¬ (a < e.1 ∧ e.1 < b)) →
    (weave src pos es).slice (es.startOf a - pos) (es.stopOf b - pos) = src.slice a b
  | [], pos, _, a, b, ha, hab, hb, _ => by
    rw [weave, startOf, stopOf, gain, gain, Nat.add_zero, Nat.add_zero]
    exact src.slice_drop ha
  | e :: es, pos, h, a, b, ha, hab, hb, hgap => by
    obtain ⟨hpos, hin⟩ := h.head
    have hfirst : (src.slice pos e.1).length = e.1 - pos := src.length_slice hin
    have hrest := fun e' he' => hgap e' (List.mem_cons_of_mem _ he')
    have hhead := hgap e List.mem_cons_self
    rw [weave, startOf, stopOf, gain, gain]
    by_cases hb' : b ≤ e.1
    · -- The stretch lies in front of the first insertion.
      have hlater : ∀ e' ∈ es, e.1 < e'.1 := (List.pairwise_cons.1 h.ascending).1
      rw [if_neg (by simp; omega), if_neg (by simp; omega),
        gain_eq_zero (fun e' he' => by have := hlater e' he'; simp; omega),
        gain_eq_zero (fun e' he' => by have := hlater e' he'; simp; omega)]
      rw [Bytes.slice_append_left (by rw [hfirst]; omega)]
      exact src.slice_slice hb' ha
    · -- It lies behind it.
      have hle : e.1 ≤ a := by omega
      rw [if_pos (by simpa using hle), if_pos (by simp; omega),
        Bytes.slice_append_right (by rw [hfirst]; omega), Bytes.slice_append_right (by rw [hfirst]; omega), hfirst]
      have ih := slice_weave_from src es e.1 h.tail hle hab hb hrest
      rw [startOf, stopOf] at ih
      rw [← ih]
      congr 1 <;> omega

/-- **A stretch of the text in which nothing is put in stays as it is.** -/
theorem slice_weave {src : Bytes} {es : Edits} (h : Within 0 src es) {a b : Nat} (hb : b ≤ src.length)
    (hgap : ∀ e ∈ es, ¬ (a < e.1 ∧ e.1 < b)) :
    (weave src 0 es).slice (es.startOf a) (max (es.startOf a) (es.stopOf b)) = src.slice a b := by
  by_cases hab : a < b
  · have hgain := gain_eq_of_gap hab hgap
    rw [Nat.max_eq_right (by unfold startOf stopOf; omega)]
    exact slice_weave_from src es 0 h (Nat.zero_le _) hab hb hgap
  · rw [Nat.max_eq_left (es.stopOf_le_startOf (by omega)), Bytes.slice_eq_nil _ (Nat.le_refl _),
      Bytes.slice_eq_nil _ (by omega)]

theorem slice_weave_insertion_from (src : Bytes) : ∀ (es : Edits) (pos : Nat), Within pos src es → ∀ e ∈ es,
    (weave src pos es).slice (es.stopOf e.1 - pos) (es.stopOf e.1 - pos + e.2.length) = e.2
  | [], _, _, e, he => by cases he
  | e₀ :: es, pos, h, e, he => by
    obtain ⟨hpos, hin⟩ := h.head
    have hfirst : (src.slice pos e₀.1).length = e₀.1 - pos := src.length_slice hin
    have hlater : ∀ e' ∈ es, e₀.1 < e'.1 := (List.pairwise_cons.1 h.ascending).1
    rw [weave, stopOf, gain]
    rcases List.mem_cons.1 he with rfl | he
    · rw [if_neg (by simp), gain_eq_zero (fun e' he' => by have := hlater e' he'; simp; omega),
        Bytes.slice_append_right (by rw [hfirst]; omega), hfirst, Bytes.slice_append_left (by omega)]
      unfold Bytes.slice
      rw [show e.1 + (0 + 0) - pos - (e.1 - pos) = 0 by omega, List.drop_zero]
      exact List.take_of_length_le (by omega)
    · have hlt := hlater e he
      rw [if_pos (by simpa using hlt), Bytes.slice_append_right (by rw [hfirst]; omega),
        Bytes.slice_append_right (by rw [hfirst]; omega), hfirst]
      have ih := slice_weave_insertion_from src es e₀.1 h.tail e he
      rw [stopOf] at ih
      refine Eq.trans ?_ ih
      congr 1 <;> omega

/-- **An insertion is found in front of what begins at its offset.** -/
theorem slice_weave_insertion {src : Bytes} {es : Edits} (h : Within 0 src es) {e : Nat × Bytes} (he : e ∈ es) :
    (weave src 0 es).slice (es.stopOf e.1) (es.stopOf e.1 + e.2.length) = e.2 :=
  slice_weave_insertion_from src es 0 h e he

/-! ## Where the new text can be cut -/

theorem length_weave (src : Bytes) : ∀ (es : Edits) (pos : Nat), Within pos src es →
    (weave src pos es).length = src.length - pos + es.gain (fun _ => true)
  | [], pos, _ => by rw [weave, List.length_drop]; rfl
  | e :: es, pos, h => by
    obtain ⟨hpos, hin⟩ := h.head
    rw [weave, List.length_append, List.length_append, src.length_slice hin, length_weave src es e.1 h.tail, gain,
      if_pos rfl]
    omega

/-- At the beginning of what begins at an offset stands the same byte as before. -/
theorem getElem?_weave {src : Bytes} {es : Edits} (h : Within 0 src es) (o : Nat) :
    (weave src 0 es)[es.startOf o]? = src[o]? := by
  by_cases ho : o < src.length
  · have hslice := slice_weave h (a := o) (b := o + 1) (by omega) (fun e _ => by omega)
    have hgain := @gain_eq_of_gap es o (o + 1) (by omega) (fun e _ => by omega)
    rw [Nat.max_eq_right (by unfold startOf stopOf; omega),
      show es.stopOf (o + 1) = es.startOf o + 1 by unfold startOf stopOf; omega] at hslice
    have hhead := congrArg (fun l => l[0]?) hslice
    simpa [Bytes.slice, List.getElem?_take] using hhead
  · have hall : es.gain (· ≤ o) = es.gain (fun _ => true) :=
      gain_congr (fun e he => by have := h.inside e he; simp; omega)
    have hlen := length_weave src es 0 h
    rw [startOf, hall, List.getElem?_eq_none (by omega), List.getElem?_eq_none (by omega)]

/-- **Where the text can be cut, the new text can.** -/
theorem encodes_take_weave {src : Bytes} {es : Edits} (h : Within 0 src es) (hsrc : Utf8.Encodes src)
    (hnew : Utf8.Encodes (weave src 0 es)) {o : Nat} (ho : Utf8.Encodes (src.take o)) :
    Utf8.Encodes ((weave src 0 es).take (es.startOf o)) := by
  rw [Utf8.encodes_take_iff hnew, getElem?_weave h o]
  exact (Utf8.encodes_take_iff hsrc o).1 ho

theorem take_eq_append_slice {src : Bytes} {i j : Nat} (hij : i ≤ j) : src.take j = src.take i ++ src.slice i j := by
  rw [Bytes.slice, ← List.take_add]
  congr 1; omega

theorem encodes_slice {src : Bytes} {i j : Nat} (hij : i ≤ j) (hi : Utf8.Encodes (src.take i)) (hj : Utf8.Encodes (src.take j)) :
    Utf8.Encodes (src.slice i j) := by
  rw [take_eq_append_slice hij] at hj
  exact (Utf8.encodes_append hi _).1 hj

theorem encodes_take_slice {src : Bytes} {i j : Nat} (hij : i ≤ j) (hi : Utf8.Encodes (src.take i))
    (h : Utf8.Encodes (src.slice i j)) : Utf8.Encodes (src.take j) := by
  rw [take_eq_append_slice hij]
  exact (Utf8.encodes_append hi _).2 h

/-- The text can be cut where a text that is not empty begins. -/
theorem encodes_take_of_slice {src : Bytes} (hsrc : Utf8.Encodes src) {i j : Nat} (hij : i < j) (hj : j ≤ src.length)
    (h : Utf8.Encodes (src.slice i j)) : Utf8.Encodes (src.take i) := by
  rw [Utf8.encodes_take_iff hsrc]
  intro b hb
  obtain ⟨n, hn⟩ : ∃ n, j - i = n + 1 := ⟨j - i - 1, by omega⟩
  rw [Bytes.slice, List.drop_eq_getElem_cons (by omega), hn, List.take_succ_cons] at h
  rw [List.getElem?_eq_getElem (by omega), Option.some.injEq] at hb
  rw [← hb]
  exact Utf8.isTail_head h

/-- **Where texts are put in at places at which the text can be cut, the new text is one.** -/
theorem encodes_weave {src : Bytes} (hsrc : Utf8.Encodes src) : ∀ (es : Edits) (pos : Nat), Within pos src es →
    Utf8.Encodes (src.take pos) → (∀ e ∈ es, Utf8.Encodes e.2 ∧ Utf8.Encodes (src.take e.1)) → Utf8.Encodes (weave src pos es)
  | [], pos, _, hpos, _ => by
    have hsplit : src = src.take pos ++ src.drop pos := (List.take_append_drop pos src).symm
    rw [hsplit] at hsrc
    exact (Utf8.encodes_append hpos _).1 hsrc
  | e :: es, pos, h, hpos, hes => by
    obtain ⟨htext, hcut⟩ := hes e List.mem_cons_self
    have hslice := encodes_slice h.head.1 hpos hcut
    have hrest := encodes_weave hsrc es e.1 h.tail hcut (fun e' he' => hes e' (List.mem_cons_of_mem _ he'))
    rw [weave, Utf8.encodes_append hslice, Utf8.encodes_append htext]
    exact hrest

/-! ## Taking the insertions out -/

/-- A text from which insertions are taken out: so many bytes after what lies between two offsets. -/
def unweave (pos : Nat) : Edits → Bytes → Bytes
  | [], bs => bs
  | e :: es, bs => bs.take (e.1 - pos) ++ unweave e.1 es (bs.drop (e.1 - pos + e.2.length))

/-- **Without its insertions the new text is the old one.** -/
theorem unweave_weave (src : Bytes) : ∀ (es : Edits) (pos : Nat), Within pos src es →
    unweave pos es (weave src pos es) = src.drop pos
  | [], pos, _ => rfl
  | e :: es, pos, h => by
    obtain ⟨hpos, hin⟩ := h.head
    have hfirst : (src.slice pos e.1).length = e.1 - pos := src.length_slice hin
    have hkept : (weave src pos (e :: es)).take (e.1 - pos) = src.slice pos e.1 := by
      rw [weave, List.take_append_of_le_length (by omega), List.take_of_length_le (by omega)]
    have hrest : (weave src pos (e :: es)).drop (e.1 - pos + e.2.length) = weave src e.1 es := by
      rw [weave, ← List.append_assoc, List.drop_append_of_le_length (by rw [List.length_append]; omega),
        List.drop_of_length_le (by rw [List.length_append]; omega), List.nil_append]
    have hsplit : src.drop pos = src.slice pos e.1 ++ src.drop e.1 := by
      have hdrop : src.drop e.1 = (src.drop pos).drop (e.1 - pos) := by
        rw [List.drop_drop, show pos + (e.1 - pos) = e.1 by omega]
      rw [Bytes.slice, hdrop, List.take_append_drop]
    rw [unweave, hkept, hrest, unweave_weave src es e.1 h.tail, hsplit]

/-! ## The last insertion first -/

theorem weave_append (src : Bytes) (o last : Nat) (t : Bytes) (hle : o ≤ last) : ∀ (es : Edits) (pos : Nat), pos ≤ o →
    (∀ e ∈ es, e.1 ≤ o) →
    weave (src.take last) pos (es ++ [(o, t)]) = weave (src.take o) pos es ++ (t ++ src.slice o last)
  | [], pos, hpos, _ => by
    have h₁ : Bytes.slice (src.take last) pos o = (src.take o).drop pos := by
      unfold Bytes.slice
      rw [List.drop_take, List.drop_take, List.take_take, Nat.min_eq_left (by omega)]
    have h₂ : (src.take last).drop o = src.slice o last := by
      unfold Bytes.slice
      rw [List.drop_take]
    rw [List.nil_append, weave, weave, weave, h₁, h₂]
  | e :: es, pos, hpos, h => by
    have he := h e List.mem_cons_self
    have h₁ : Bytes.slice (src.take last) pos e.1 = Bytes.slice (src.take o) pos e.1 := by
      unfold Bytes.slice
      rw [List.drop_take, List.drop_take, List.take_take, List.take_take, Nat.min_eq_left (by omega),
        Nat.min_eq_left (by omega)]
    rw [List.cons_append, weave, weave, weave_append src o last t hle es e.1 he
      (fun e' he' => h e' (List.mem_cons_of_mem _ he')), h₁]
    simp only [List.append_assoc]

end Edits
end TagAlias
