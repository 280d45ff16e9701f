import Mathlib.Data.List.Perm.Basic
import TagAlias.Path
/-!
# Paths in order

The order of paths is total, and two paths from the root that stand before each other are one.  A sorted list of such paths
is therefore settled by what is in it (`filter_sorted_congr`), and has nothing twice (`nodup_sorted`).
-/
namespace TagAlias

/-! ## Repetitions -/

section Repetitions

variable {α : Type} [BEq α]

theorem eraseReps_loop (a : α) (done : List α) : ∀ as : List α,
    List.eraseRepsBy.loop (· == ·) a as done = done.reverse ++ List.eraseRepsBy.loop (· == ·) a as [] := by
  intro as
  induction as generalizing a done with
  | nil => simp [List.eraseRepsBy.loop]
  | cons b as ih =>
    rw [List.eraseRepsBy.loop, List.eraseRepsBy.loop]
    split
    · exact ih a done
    · rw [ih b (a :: done), ih b [a]]
      simp

theorem eraseReps_cons_cons (a b : α) (as : List α) :
    (a :: b :: as).eraseReps = if a == b then (a :: as).eraseReps else a :: (b :: as).eraseReps := by
  change List.eraseRepsBy.loop (· == ·) a (b :: as) [] = if a == b then List.eraseRepsBy.loop (· == ·) a as []
    else a :: List.eraseRepsBy.loop (· == ·) b as []
  rw [List.eraseRepsBy.loop]
  split
  · next h => rw [if_pos h]
  · next h =>
    rw [if_neg (by simp [h]), eraseReps_loop]
    rfl

variable [LawfulBEq α]

theorem mem_eraseReps_iff {x : α} : ∀ {as : List α}, x ∈ as.eraseReps ↔ x ∈ as
  | [] => Iff.rfl
  | [a] => Iff.rfl
  | a :: b :: as => by
    rw [eraseReps_cons_cons]
    split
    · next h =>
      rw [mem_eraseReps_iff, eq_of_beq h]
      simp
    · rw [List.mem_cons, mem_eraseReps_iff, List.mem_cons (b := a)]

/-- In a list in order, where what stands before each other is one, nothing is left twice. -/
theorem pairwise_eraseReps {le : α → α → Prop} : ∀ {as : List α}, as.Pairwise le →
    (∀ a ∈ as, ∀ b ∈ as, le a b → le b a → a = b) → as.eraseReps.Pairwise (fun a b => le a b ∧ a ≠ b)
  | [], _, _ => .nil
  | [a], _, _ => List.pairwise_singleton _ a
  | a :: b :: as, h, hantisymm => by
    have hrest : (a :: as).Sublist (a :: b :: as) := (List.sublist_cons_self b as).cons_cons a
    rw [eraseReps_cons_cons]
    split
    · exact pairwise_eraseReps (h.sublist hrest)
        (fun x hx y hy => hantisymm x (hrest.subset hx) y (hrest.subset hy))
    · next hne =>
      obtain ⟨hfirst, htail⟩ := List.pairwise_cons.1 h
      refine List.pairwise_cons.2 ⟨fun c hc => ⟨hfirst c (mem_eraseReps_iff.1 hc), ?_⟩, pairwise_eraseReps htail
        (fun x hx y hy => hantisymm x (List.mem_cons_of_mem _ hx) y (List.mem_cons_of_mem _ hy))⟩
      rintro rfl
      have hab : le a b := hfirst b List.mem_cons_self
      rcases List.mem_cons.1 (mem_eraseReps_iff.1 hc) with heq | hmem
      · exact hne (beq_iff_eq.2 heq)
      · have hba : le b a := (List.pairwise_cons.1 htail).1 a hmem
        exact hne (beq_iff_eq.2 (hantisymm a (by simp) b (by simp) hab hba))

end Repetitions

namespace Path

/-! ## The order of paths -/

theorem namesLe_total : ∀ a b : List String, (namesLe a b || namesLe b a) = true
  | [], _ => rfl
  | _ :: _, [] => rfl
  | x :: a, y :: b => by
    rw [namesLe, namesLe]
    by_cases h : x = y
    · subst h
      simpa using namesLe_total a b
    · rw [if_neg (by simpa using h), if_neg (by simpa using fun heq => h heq.symm)]
      by_contra hnot
      simp only [Bool.or_eq_true, decide_eq_true_eq, not_or, String.not_lt] at hnot
      exact h (String.le_antisymm hnot.2 hnot.1)

theorem namesLe_trans : ∀ a b c : List String, namesLe a b = true → namesLe b c = true → namesLe a c = true
  | [], _, _, _, _ => rfl
  | _ :: _, [], _, hab, _ => by cases hab
  | _ :: _, _ :: _, [], _, hbc => by cases hbc
  | x :: a, y :: b, z :: c, hab, hbc => by
    rw [namesLe] at hab hbc ⊢
    by_cases hxy : x = y
    · subst hxy
      rw [if_pos (beq_self_eq_true x)] at hab
      split at hbc
      · next hxz => rw [if_pos hxz]; exact namesLe_trans a b c hab hbc
      · next hxz => rw [if_neg hxz]; exact hbc
    · rw [if_neg (by simpa using hxy), decide_eq_true_eq] at hab
      have hxz : x < z := by
        split at hbc
        · next hyz => rwa [← eq_of_beq hyz]
        · exact String.lt_trans hab (of_decide_eq_true hbc)
      rw [if_neg (by simpa using fun heq : x = z => String.lt_irrefl z (heq ▸ hxz))]
      exact decide_eq_true hxz

theorem namesLe_antisymm : ∀ a b : List String, namesLe a b = true → namesLe b a = true → a = b
  | [], [], _, _ => rfl
  | [], _ :: _, _, hba => by cases hba
  | _ :: _, [], hab, _ => by cases hab
  | x :: a, y :: b, hab, hba => by
    rw [namesLe] at hab hba
    by_cases hxy : x = y
    · subst hxy
      rw [if_pos (beq_self_eq_true x)] at hab hba
      rw [namesLe_antisymm a b hab hba]
    · rw [if_neg (by simpa using hxy), decide_eq_true_eq] at hab
      rw [if_neg (by simpa using fun heq => hxy heq.symm), decide_eq_true_eq] at hba
      exact absurd hba (String.lt_asymm hab)

theorem le_antisymm_of_root {p q : Path} (hp : p.origin = .root) (hq : q.origin = .root) (hpq : p.le q = true)
    (hqp : q.le p = true) : p = q := by
  obtain ⟨_, names⟩ := p
  obtain ⟨_, names'⟩ := q
  cases hp
  cases hq
  have h := namesLe_antisymm _ _ hpq hqp
  simp only [parts, isAbsolute] at h
  cases h
  rfl

/-! ## Sorted lists -/

variable {ps qs : List Path}

theorem mem_sorted_iff {p : Path} : p ∈ sorted ps ↔ p ∈ ps := by
  rw [sorted, mem_eraseReps_iff, List.mem_mergeSort]

theorem pairwise_sorted (h : ∀ p ∈ ps, p.origin = .root) :
    (sorted ps).Pairwise (fun p q => p.le q = true ∧ p ≠ q) := by
  have htrans : ∀ p q r : Path, p.le q = true → q.le r = true → p.le r = true := fun _ _ _ => namesLe_trans _ _ _
  have htotal : ∀ p q : Path, (p.le q || q.le p) = true := fun _ _ => namesLe_total _ _
  refine pairwise_eraseReps (List.pairwise_mergeSort htrans htotal ps) (fun p hp q hq => ?_)
  exact le_antisymm_of_root (h p (List.mem_mergeSort.1 hp)) (h q (List.mem_mergeSort.1 hq))

theorem nodup_sorted (h : ∀ p ∈ ps, p.origin = .root) : (sorted ps).Nodup :=
  (pairwise_sorted h).imp And.right

/-- **What is kept of a sorted list is settled by what is in it.** -/
theorem filter_sorted_congr {keep : Path → Bool} (hps : ∀ p ∈ ps, p.origin = .root) (hqs : ∀ q ∈ qs, q.origin = .root)
    (h : ∀ p, keep p = true → (p ∈ ps ↔ p ∈ qs)) : (sorted ps).filter keep = (sorted qs).filter keep := by
  have hmem : ∀ p, p ∈ (sorted ps).filter keep ↔ p ∈ (sorted qs).filter keep := by
    intro p
    rw [List.mem_filter, List.mem_filter, mem_sorted_iff, mem_sorted_iff]
    exact and_congr_left (h p)
  have hperm := (List.perm_ext_iff_of_nodup ((nodup_sorted hps).filter keep) ((nodup_sorted hqs).filter keep)).2 hmem
  refine hperm.eq_of_pairwise (fun p q hp hq hpq hqp => ?_) ((pairwise_sorted hps).filter keep)
    ((pairwise_sorted hqs).filter keep)
  exact le_antisymm_of_root (hps p (mem_sorted_iff.1 (List.mem_filter.1 hp).1))
    (hqs q (mem_sorted_iff.1 (List.mem_filter.1 hq).1)) hpq.1 hqp.1

/-- **Sorted lists of the same paths are one.** -/
theorem sorted_congr (hps : ∀ p ∈ ps, p.origin = .root) (h : ∀ p, p ∈ ps ↔ p ∈ qs) : sorted ps = sorted qs := by
  have hsame : (sorted ps).filter (fun _ => true) = (sorted qs).filter (fun _ => true) :=
    filter_sorted_congr hps (fun q hq => hps q ((h q).2 hq)) (fun p _ => h p)
  simpa using hsame

theorem sorted_append_sorted (hps : ∀ p ∈ ps, p.origin = .root) (hqs : ∀ q ∈ qs, q.origin = .root) :
    sorted (sorted ps ++ sorted qs) = sorted (ps ++ qs) := by
  have hmem : ∀ p, p ∈ sorted ps ++ sorted qs ↔ p ∈ ps ++ qs := fun p => by
    rw [List.mem_append, List.mem_append, mem_sorted_iff, mem_sorted_iff]
  refine sorted_congr (fun p hp => ?_) hmem
  exact (List.mem_append.1 ((hmem p).1 hp)).elim (hps p) (hqs p)

theorem sorted_singleton (p : Path) : sorted [p] = [p] := by
  rw [sorted, List.mergeSort_singleton]
  rfl

end Path
end TagAlias
