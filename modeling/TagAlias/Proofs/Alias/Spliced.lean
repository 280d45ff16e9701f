import Mathlib.Data.List.Forall2
import TagAlias.Proofs.Alias.Collected
import TagAlias.Proofs.Alias.Declaration
/-!
# The text with a plan carried out

Splicing puts the points in from the last to the first.  What comes out is the text with the plan's insertions woven in
(`splice_eq_weave`), provided that the points lie within the text, and nothing comes out otherwise (`inside_of_splice`).  The
insertions ascend (`within_edits`), and there is one way to sort the points (`ascending_eq_of_perm`).  The declarations of a
point stand in its insertion one behind the other (`isDeclaration_declarationNodes`).
-/
namespace TagAlias

namespace Plan

/-- What points put in, from the first point to the last. -/
def editsOf (stem : String) (ps : List InsertionPoint) : Edits :=
  (ps.filter (fun p => !p.names.isEmpty)).map (fun p => (p.offset.toNat, Bytes.ofString (Alias.render stem p)))

def edits (p : Plan) (stem : String) : Edits := editsOf stem p.descending.reverse

/-- The points that declare something lie within a text. -/
def Inside (p : Plan) (src : Bytes) : Prop := ∀ q ∈ p.points, q.names ≠ [] → 0 ≤ q.offset ∧ q.offset ≤ src.length

theorem mem_descending {p : Plan} {q : InsertionPoint} : q ∈ p.descending ↔ q ∈ p.points := List.mem_mergeSort

theorem editsOf_reverse_cons (stem : String) (p : InsertionPoint) (ps : List InsertionPoint) :
    editsOf stem (p :: ps).reverse = editsOf stem ps.reverse ++ editsOf stem [p] := by
  unfold editsOf
  rw [List.reverse_cons, List.filter_append, List.map_append]

theorem mem_editsOf {stem : String} {ps : List InsertionPoint} {e : Nat × Bytes} :
    e ∈ editsOf stem ps ↔ ∃ p ∈ ps, p.names ≠ [] ∧ e = (p.offset.toNat, Bytes.ofString (Alias.render stem p)) := by
  unfold editsOf
  simp only [List.mem_map, List.mem_filter, Bool.not_eq_true', List.isEmpty_eq_false_iff]
  constructor
  · rintro ⟨p, ⟨hp, hn⟩, rfl⟩
    exact ⟨p, hp, hn, rfl⟩
  · rintro ⟨p, hp, hn, rfl⟩
    exact ⟨p, ⟨hp, hn⟩, rfl⟩

theorem mem_edits {p : Plan} {stem : String} {e : Nat × Bytes} :
    e ∈ p.edits stem ↔ ∃ q ∈ p.points, q.names ≠ [] ∧ e = (q.offset.toNat, Bytes.ofString (Alias.render stem q)) := by
  rw [edits, mem_editsOf]
  simp only [List.mem_reverse, mem_descending]

theorem descending_pairwise (p : Plan) : p.descending.Pairwise (fun a b => b.offset ≤ a.offset) := by
  have htrans : ∀ a b c : InsertionPoint, decide (b.offset ≤ a.offset) → decide (c.offset ≤ b.offset) →
      decide (c.offset ≤ a.offset) := by
    intro a b c hab hbc
    simp at *
    omega
  have htotal : ∀ a b : InsertionPoint, decide (b.offset ≤ a.offset) || decide (a.offset ≤ b.offset) := by
    intro a b
    simp
    omega
  have hsort := List.pairwise_mergeSort htrans htotal p.points
  simpa [descending] using hsort

end Plan

namespace Alias

/-- What splicing has put in when `last` bytes are left. -/
theorem spliceFrom_eq (src : Bytes) (stem : String) : ∀ (ps : List InsertionPoint) (last : Nat) (done : Bytes),
    ps.Pairwise (fun a b => b.offset ≤ a.offset) → (∀ q ∈ ps, q.names ≠ [] → 0 ≤ q.offset ∧ q.offset ≤ last) →
    spliceFrom src stem last done ps = .ok (Edits.weave (src.take last) 0 (Plan.editsOf stem ps.reverse) ++ done)
  | [], last, done, _, _ => by
    rw [spliceFrom, Bytes.slice_zero]
    rfl
  | p :: ps, last, done, hdesc, hin => by
    obtain ⟨hfirst, hrest⟩ := List.pairwise_cons.1 hdesc
    rw [spliceFrom, Plan.editsOf_reverse_cons]
    by_cases hn : p.names = []
    · have hnone : Plan.editsOf stem [p] = [] := by simp [Plan.editsOf, hn]
      rw [if_pos (by simp [hn]), hnone, List.append_nil]
      exact spliceFrom_eq src stem ps last done hrest (fun q hq => hin q (List.mem_cons_of_mem _ hq))
    · have hone : Plan.editsOf stem [p] = [(p.offset.toNat, Bytes.ofString (render stem p))] := by simp [Plan.editsOf, hn]
      have hp := hin p List.mem_cons_self hn
      have hbefore : ∀ q ∈ ps, q.names ≠ [] → 0 ≤ q.offset ∧ q.offset ≤ p.offset.toNat := by
        intro q hq hqn
        have h₁ := hin q (List.mem_cons_of_mem _ hq) hqn
        have h₂ := hfirst q hq
        omega
      have hle : ∀ e ∈ Plan.editsOf stem ps.reverse, e.1 ≤ p.offset.toNat := by
        intro e he
        obtain ⟨q, hq, hqn, rfl⟩ := Plan.mem_editsOf.1 he
        have := hbefore q (List.mem_reverse.1 hq) hqn
        simp only; omega
      rw [if_neg (by simpa using hn), if_pos hp, spliceFrom_eq src stem ps _ _ hrest hbefore, hone,
        Edits.weave_append src _ _ _ (by omega) _ _ (Nat.zero_le _) hle]
      simp only [List.append_assoc]

theorem inside_of_spliceFrom {src : Bytes} {stem : String} : ∀ (ps : List InsertionPoint) (last : Nat) (done : Bytes)
    {bytes : Bytes}, spliceFrom src stem last done ps = .ok bytes →
    ∀ q ∈ ps, q.names ≠ [] → 0 ≤ q.offset ∧ q.offset ≤ last
  | [], _, _, _, _, q, hq, _ => absurd hq List.not_mem_nil
  | p :: ps, last, done, bytes, h, q, hq, hn => by
    rw [spliceFrom] at h
    split at h
    · next hempty =>
      rcases List.mem_cons.1 hq with rfl | hq
      · exact absurd (List.isEmpty_iff.1 hempty) hn
      · exact inside_of_spliceFrom ps last done h q hq hn
    · split at h
      · next hin =>
        rcases List.mem_cons.1 hq with rfl | hq
        · exact hin
        · have hbefore := inside_of_spliceFrom ps _ _ h q hq hn
          omega
      · cases h

/-- **A plan that can be carried out lies within the text.** -/
theorem inside_of_splice {p : Plan} {stem : String} {src bytes : Bytes} (h : p.splice stem src = .ok bytes) :
    p.Inside src := by
  intro q hq hn
  exact inside_of_spliceFrom p.descending src.length [] h q (Plan.mem_descending.2 hq) hn

end Alias

namespace Plan

variable {p : Plan} {stem : String} {src : Bytes}

/-- **Carried out, a plan puts in its insertions.** -/
theorem splice_eq_weave (hin : p.Inside src) : p.splice stem src = .ok (Edits.weave src 0 (p.edits stem)) := by
  have hmem : ∀ q ∈ p.descending, q.names ≠ [] → 0 ≤ q.offset ∧ q.offset ≤ src.length := fun q hq =>
    hin q (mem_descending.1 hq)
  rw [splice, Alias.spliceFrom_eq src stem _ _ _ p.descending_pairwise hmem, List.take_length, List.append_nil]
  rfl

theorem descending_perm (p : Plan) : p.descending.Perm p.points := List.mergeSort_perm _ _

theorem descending_pairwise_lt (hnodup : p.offsets.Nodup) : p.descending.Pairwise (fun a b => b.offset < a.offset) := by
  have hne : p.descending.Pairwise (fun a b => a.offset ≠ b.offset) := by
    rw [p.descending_perm.pairwise_iff (fun h => Ne.symm h)]
    exact List.pairwise_map.1 hnodup
  exact (p.descending_pairwise.and hne).imp (fun ⟨h₁, h₂⟩ => by omega)

theorem ascending_perm (p : Plan) : p.ascending.Perm p.points := List.mergeSort_perm _ _

theorem ascending_pairwise (p : Plan) : p.ascending.Pairwise (fun a b => a.offset ≤ b.offset) := by
  have htrans : ∀ a b c : InsertionPoint, decide (a.offset ≤ b.offset) → decide (b.offset ≤ c.offset) →
      decide (a.offset ≤ c.offset) := by
    intro a b c hab hbc
    simp at *
    omega
  have htotal : ∀ a b : InsertionPoint, decide (a.offset ≤ b.offset) || decide (b.offset ≤ a.offset) := by
    intro a b
    simp
    omega
  have hsort := List.pairwise_mergeSort htrans htotal p.points
  simpa [ascending] using hsort

/-- No two points have the same offset, so there is one way to sort them. -/
theorem ascending_eq_of_perm (h : p.offsets.Nodup) {qs : List InsertionPoint}
    (hsorted : qs.Pairwise (fun a b => a.offset ≤ b.offset)) (hperm : qs.Perm p.points) : p.ascending = qs := by
  refine List.Perm.eq_of_pairwise ?_ p.ascending_pairwise hsorted (p.ascending_perm.trans hperm.symm)
  intro a b ha hb hab hba
  have ha := p.ascending_perm.mem_iff.1 ha
  have hb := hperm.mem_iff.1 hb
  exact List.inj_on_of_nodup_map h ha hb (Int.le_antisymm hab hba)

/-- Sorted up, the points are those sorted down from the last to the first. -/
theorem ascending_eq (h : p.offsets.Nodup) : p.ascending = p.descending.reverse :=
  ascending_eq_of_perm h (List.pairwise_reverse.2 p.descending_pairwise) ((List.reverse_perm _).trans p.descending_perm)

theorem ascending_pairwise_lt (h : p.offsets.Nodup) : p.ascending.Pairwise (fun a b => a.offset < b.offset) := by
  rw [ascending_eq h, List.pairwise_reverse]
  exact descending_pairwise_lt h

theorem within_edits (hnodup : p.offsets.Nodup) (hin : p.Inside src) : Edits.Within 0 src (p.edits stem) := by
  have hstrict := descending_pairwise_lt hnodup
  refine ⟨?_, fun e _ => Nat.zero_le _, ?_⟩
  · unfold edits editsOf
    rw [List.pairwise_map, List.pairwise_filter, List.pairwise_reverse]
    refine hstrict.imp_of_mem (fun {a b} ha hb hlt h₁ h₂ => ?_)
    have hb' := hin b (mem_descending.1 hb) (by simpa using h₁)
    simp only; omega
  · intro e he
    obtain ⟨q, hq, hn, rfl⟩ := mem_edits.1 he
    have := hin q hq hn
    simp only; omega

end Plan

namespace Alias

/-! ## The declarations of a point -/

/-- What is put in for names, the lead left out. -/
def declarationsText (stem separator : String) (names : List String) : String :=
  String.join (names.map (fun x => declaration stem x ++ separator))

/-- The nodes of declarations one behind the other, the first of which begins at an offset. -/
def declarationNodes (stem separator : String) (start : Nat) : List String → List Node
  | [] => []
  | x :: xs => declarationNode stem x start ::
      declarationNodes stem separator (start + (Bytes.ofString (declaration stem x ++ separator)).length) xs

/-- **Where the declarations of a point stand, their nodes are declarations.** -/
theorem isDeclaration_declarationNodes {src : Bytes} {stem separator : String} : ∀ (names : List String) (start stop : Nat),
    src.slice start stop = Bytes.ofString (declarationsText stem separator names) →
    List.Forall₂ (fun x d => IsDeclaration src stem x d) names (declarationNodes stem separator start names)
  | [], _, _, _ => .nil
  | x :: xs, start, stop, h => by
    have hsplit : Bytes.ofString (declarationsText stem separator (x :: xs)) =
        Bytes.ofString (declaration stem x) ++ (Bytes.ofString separator ++ Bytes.ofString (declarationsText stem separator xs)) := by
      unfold declarationsText
      rw [List.map_cons, String.join_cons, ofString_append, ofString_append, List.append_assoc]
    rw [hsplit] at h
    have hhere : Declares src stem x start := ⟨_, Bytes.slice_of_slice_eq (a := []) h⟩
    have hrest : src.slice (start + (Bytes.ofString (declaration stem x ++ separator)).length)
        (start + (Bytes.ofString (declaration stem x ++ separator)).length +
          (Bytes.ofString (declarationsText stem separator xs)).length) =
        Bytes.ofString (declarationsText stem separator xs) := by
      rw [← List.append_assoc, ← ofString_append] at h
      rw [← List.append_nil (Bytes.ofString (declarationsText stem separator xs))] at h
      exact Bytes.slice_of_slice_eq h
    exact .cons ⟨start, rfl, hhere⟩ (isDeclaration_declarationNodes xs _ _ hrest)

theorem slice_declarationsText {src : Bytes} {es : Edits} (h : Edits.Within 0 src es) {stem : String} {p : InsertionPoint}
    {o : Nat} (he : (o, Bytes.ofString (render stem p)) ∈ es) :
    ∃ stop, (Edits.weave src 0 es).slice (es.stopOf o + (Bytes.ofString p.lead).length) stop =
      Bytes.ofString (declarationsText stem p.separator p.names) := by
  have hslice := Edits.slice_weave_insertion h he
  have hsplit : Bytes.ofString (render stem p) =
      Bytes.ofString p.lead ++ (Bytes.ofString (declarationsText stem p.separator p.names) ++ []) := by
    rw [List.append_nil, ← ofString_append]
    rfl
  simp only at hslice
  rw [hsplit] at hslice
  exact ⟨_, Bytes.slice_of_slice_eq hslice⟩

end Alias
end TagAlias
