import Mathlib.Algebra.Order.BigOperators.Group.List
import Mathlib.Algebra.Order.Ring.Nat
import TagAlias.Path
/-!
# Paths read from text

The names of a path are the pieces of its text between slashes, less those that are empty or a dot.  So what the
characters of the names weigh is what those of the text weigh, but for slashes and dots (`weight_ofString`,
`weight_ofString_le`).  The text of a file name is read as that file name (`ofString_display`).
-/
namespace TagAlias

namespace Text

/-- What the characters of a text weigh together. -/
def weight (w : Char → Nat) (cs : List Char) : Nat := (cs.map w).sum

variable {w : Char → Nat}

@[simp] theorem weight_nil : weight w [] = 0 := rfl

@[simp] theorem weight_cons (c : Char) (cs : List Char) : weight w (c :: cs) = w c + weight w cs := List.sum_cons

@[simp] theorem weight_append (cs ds : List Char) : weight w (cs ++ ds) = weight w cs + weight w ds := by
  simp [weight]

theorem weight_one (cs : List Char) : weight (fun _ => 1) cs = cs.length := by
  simp [weight]

theorem weight_mono {cs ds : List Char} (h : cs.Sublist ds) : weight w cs ≤ weight w ds :=
  (h.map w).sum_le_sum (fun _ _ => Nat.zero_le _)

/-- The pieces between slashes weigh as much as the text, with a slash behind each. -/
theorem weight_splitOnP (cs : List Char) :
    ((cs.splitOnP (· == '/')).map (fun l => weight w l + w '/')).sum = weight w cs + w '/' := by
  induction cs with
  | nil => simp
  | cons c cs ih =>
    rw [List.splitOnP_cons_eq_if_modifyHead]
    split
    · next hc =>
      rw [List.map_cons, List.sum_cons, ih, weight_cons, eq_of_beq hc]
      simp
      omega
    · obtain ⟨l, ls, hls⟩ := List.exists_cons_of_ne_nil (List.splitOnP_ne_nil (· == '/') cs)
      rw [hls, List.map_cons, List.sum_cons] at ih
      rw [hls, List.modifyHead_cons, List.map_cons, List.sum_cons, weight_cons, weight_cons]
      omega

end Text

namespace Path

open Text (weight)

variable {w : Char → Nat} {p q root : Path}

/-! ## Paths as seen from others -/

theorem eq_of_names (horigin : p.origin = q.origin) (hnames : p.names = q.names) : p = q := by
  cases p
  cases q
  cases horigin
  cases hnames
  rfl

theorem append_of_relative (h : q.origin = .relative) : p ++ q = ⟨p.origin, p.names ++ q.names⟩ := by
  change append p q = _
  simp [append, isAbsolute, h]

theorem append_of_absolute (h : q.origin ≠ .relative) : p ++ q = q := by
  change append p q = q
  simp [append, isAbsolute, h]

theorem append_cancel (hp : p.origin = .relative) (hq : q.origin = .relative) (h : root ++ p = root ++ q) : p = q := by
  rw [append_of_relative hp, append_of_relative hq] at h
  exact eq_of_names (hp.trans hq.symm) (List.append_cancel_left (mk.inj h).2)

theorem names_sublist_of_append (hp : p.origin = .relative) (h : root ++ p = root ++ q) : p.names.Sublist q.names := by
  by_cases hq : q.origin = .relative
  · rw [append_cancel hp hq h]
  · rw [append_of_relative hp, append_of_absolute hq] at h
    rw [← h]
    exact List.sublist_append_right _ _

/-! ## Names and their text -/

/-- What the names weigh together, with a slash behind each. -/
def weight (w : Char → Nat) (p : Path) : Nat := (p.names.map (fun n => Text.weight w n.toList + w '/')).sum

theorem weight_mono (h : p.names.Sublist q.names) : p.weight w ≤ q.weight w :=
  (h.map _).sum_le_sum (fun _ _ => Nat.zero_le _)

theorem sum_pieces (w : Char → Nat) (s : String) :
    ((pieces s).map (fun n => Text.weight w n.toList + w '/')).sum = Text.weight w s.toList + w '/' := by
  rw [← Text.weight_splitOnP, pieces, List.map_map]
  simp [Function.comp_def]

theorem weight_ofString_le (w : Char → Nat) (s : String) : (ofString s).weight w ≤ Text.weight w s.toList + w '/' := by
  rw [← sum_pieces]
  exact (List.filter_sublist.map _).sum_le_sum (fun _ _ => Nat.zero_le _)

/-- **Names weigh as much as the text they are read from**, if slashes and dots weigh nothing. -/
theorem weight_ofString (hslash : w '/' = 0) (hdot : w '.' = 0) (s : String) :
    (ofString s).weight w = Text.weight w s.toList := by
  have hpieces := sum_pieces w s
  simp only [hslash, Nat.add_zero] at hpieces
  rw [← hpieces, weight, ofString]
  simp only [hslash, Nat.add_zero]
  -- The pieces that are left out weigh nothing.
  generalize pieces s = ns
  induction ns with
  | nil => rfl
  | cons n ns ih =>
    rw [List.filter_cons]
    split
    · rw [List.map_cons, List.map_cons, List.sum_cons, List.sum_cons, ih]
    · next hn =>
      have hnothing : Text.weight w n.toList = 0 := by
        by_cases hempty : n = ""
        · subst hempty; rfl
        · have hn : n = "." := by simpa [hempty] using hn
          subst hn
          exact hdot
      rw [ih, List.map_cons, List.sum_cons, hnothing, Nat.zero_add]

/-- A path as files are named from a directory: some names, none of which is empty, a dot, or holds a slash. -/
structure IsFileName (p : Path) : Prop where
  relative : p.origin = .relative
  ne_nil : p.names ≠ []
  names : ∀ n ∈ p.names, n ≠ "" ∧ n ≠ "." ∧ '/' ∉ n.toList

instance (p : Path) : Decidable p.IsFileName :=
  decidable_of_iff (p.origin = .relative ∧ p.names ≠ [] ∧ ∀ n ∈ p.names, n ≠ "" ∧ n ≠ "." ∧ '/' ∉ n.toList)
    ⟨fun ⟨hrelative, hne, hnames⟩ => ⟨hrelative, hne, hnames⟩, fun h => ⟨h.relative, h.ne_nil, h.names⟩⟩

theorem originOf_of_head {s : String} (h : s.toList.head? ≠ some '/') : originOf s = .relative := by
  unfold originOf
  split <;> simp_all

theorem IsFileName.display_eq (h : p.IsFileName) : p.display = "/".intercalate p.names := by
  simp [display, isAbsolute, h.relative, h.ne_nil, Origin.display]

theorem IsFileName.pieces_display (h : p.IsFileName) : pieces p.display = p.names := by
  have hsplit : (['/'].intercalate (p.names.map String.toList)).splitOn '/' = p.names.map String.toList := by
    refine List.splitOn_intercalate '/' (fun l hl => ?_) (by simpa using h.ne_nil)
    obtain ⟨n, hn, rfl⟩ := List.mem_map.1 hl
    exact (h.names n hn).2.2
  rw [List.splitOn_eq_splitOnP] at hsplit
  rw [pieces, h.display_eq, String.toList_intercalate, show "/".toList = ['/'] from rfl, hsplit, List.map_map]
  simp [Function.comp_def]

theorem IsFileName.head_display (h : p.IsFileName) : ∃ c, p.display.toList.head? = some c ∧ c ≠ '/' := by
  obtain ⟨n, rest, hnames⟩ := List.exists_cons_of_ne_nil h.ne_nil
  obtain ⟨hempty, -, hslash⟩ := h.names n (by simp [hnames])
  obtain ⟨c, cs, hn⟩ := List.exists_cons_of_ne_nil (show n.toList ≠ [] by simpa using hempty)
  refine ⟨c, ?_, fun hc => hslash (by simp [hn, hc])⟩
  rw [h.display_eq, hnames, String.toList_intercalate]
  cases rest <;> simp [List.intercalate, hn]

/-- **The text of a file name is read as the file name.** -/
theorem IsFileName.ofString_display (h : p.IsFileName) : ofString p.display = p := by
  have hkept : p.names.filter (fun n => !n.isEmpty && n != ".") = p.names := by
    refine List.filter_eq_self.2 (fun n hn => ?_)
    obtain ⟨hempty, hdot, -⟩ := h.names n hn
    simp [hempty, hdot]
  obtain ⟨c, hc, hslash⟩ := h.head_display
  rw [ofString, originOf_of_head (by simp [hc, hslash]), h.pieces_display, hkept, ← h.relative]

theorem IsFileName.weight_display (h : p.IsFileName) (w : Char → Nat) :
    p.weight w = Text.weight w p.display.toList + w '/' := by
  rw [← sum_pieces, h.pieces_display, weight]

end Path
end TagAlias
