import TagAlias.Proofs.Alias.Spliced
import TagAlias.Proofs.Text.Insertion
/-!
# A plan carried out as by an editor

A plan that is built by asking for points and adding names has one point for an offset (`Built.nodup`).  It is carried out
from its last point to its first, against a bound that moves along; this fails exactly where a point with names lies outside
the text, whatever the bound is by then (`outside_of_spliceFrom`).  Else it comes to what an editor gets who puts the points
in from the first to the last, and the order in which they were asked for is of no account (`splice_inserted`).
-/
namespace TagAlias

namespace Plan

/-- Plans that asking for points and adding names come to. -/
inductive Built : Plan → Prop where
  | empty : Built .empty
  | opened {p p' : Plan} {m : ComponentMethod} (before : Built p) (step : p.openFor m = .ok p') : Built p'
  | named {p : Plan} (before : Built p) (o : Int) (x : String) : Built (p.add o x)

/-- **A plan has one point for an offset.** -/
theorem Built.nodup {p : Plan} (h : p.Built) : p.offsets.Nodup := by
  induction h with
  | empty => exact .nil
  | @opened p p' m _ step ih =>
    unfold openFor at step
    split at step
    · rw [← Except.ok.inj step]
      exact nodup_offsets_openAt ih _ m
    · cases step
  | named _ o x ih =>
    rw [offsets_add]
    exact ih

theorem mem_points_iff {p : Plan} (h : p.offsets.Nodup) {q : InsertionPoint} : q ∈ p.points ↔ p.point? q.offset = some q :=
  ⟨point?_of_mem h, fun hq => List.mem_of_find?_eq_some hq⟩

/-- Plans that have the same points are sorted into the same list. -/
theorem descending_congr {p p' : Plan} (h : p.offsets.Nodup) (h' : p'.offsets.Nodup) (hsame : ∀ o, p'.point? o = p.point? o) :
    p'.descending = p.descending := by
  have hmem : ∀ q, q ∈ p.points ↔ q ∈ p'.points := fun q => by rw [mem_points_iff h, mem_points_iff h', hsame]
  have hpoints : p.points.Perm p'.points := (List.perm_ext_iff_of_nodup h.of_map h'.of_map).2 hmem
  have hsorted : p'.ascending = p.ascending :=
    ascending_eq_of_perm h' p.ascending_pairwise (p.ascending_perm.trans hpoints)
  rw [ascending_eq h', ascending_eq h] at hsorted
  exact List.reverse_inj.1 hsorted

end Plan

namespace Alias

/-- **Where splicing fails, a point with names lies outside of what is left**, and it is told. -/
theorem outside_of_spliceFrom {src : Bytes} {stem : String} {e : Refusal} : ∀ (ps : List InsertionPoint) (last : Nat)
    (done : Bytes), ps.Pairwise (fun a b => b.offset ≤ a.offset) → spliceFrom src stem last done ps = .error e →
    ∃ q ∈ ps, q.names ≠ [] ∧ ¬ (0 ≤ q.offset ∧ q.offset ≤ last) ∧ ∃ bound, e = .outside q.offset bound
  | [], _, _, _, h => by cases h
  | p :: ps, last, done, hdesc, h => by
    obtain ⟨hfirst, hrest⟩ := List.pairwise_cons.1 hdesc
    rw [spliceFrom] at h
    split at h
    · obtain ⟨q, hq, hn, hout, he⟩ := outside_of_spliceFrom ps last done hrest h
      exact ⟨q, List.mem_cons_of_mem _ hq, hn, hout, he⟩
    · next hnames =>
      split at h
      · next hin =>
        -- A later point is not behind this one, so it can only lie in front of the text.
        obtain ⟨q, hq, hn, hout, he⟩ := outside_of_spliceFrom ps _ _ hrest h
        have hle := hfirst q hq
        exact ⟨q, List.mem_cons_of_mem _ hq, hn, by omega, he⟩
      · next hout =>
        exact ⟨p, List.mem_cons_self, fun hn => hnames (by rw [hn]; rfl), hout, last, (Except.error.inj h).symm⟩

end Alias

namespace Plan

variable {p : Plan}

/-- **Carrying a plan out is putting its points in one after the other.**  It fails exactly if a point with names lies outside
the text.  Else the result is that of an editor who goes through the points with names from the first to the last and puts
each in at its offset, as far behind it as the text has grown by then.  It depends on the points alone, not on the order in
which they were asked for. -/
theorem splice_inserted (h : p.Built) (stem : String) (src : Bytes) :
    ((∃ o bound, p.splice stem src = .error (.outside o bound)) ↔
      ∃ q ∈ p.points, q.names ≠ [] ∧ (q.offset < 0 ∨ (src.length : Int) < q.offset)) ∧
    ((¬ ∃ q ∈ p.points, q.names ≠ [] ∧ (q.offset < 0 ∨ (src.length : Int) < q.offset)) →
      p.splice stem src = .ok (Edits.insertAll src 0 ((p.ascending.filter (fun q => !q.names.isEmpty)).map
        (fun q => (q.offset.toNat, Bytes.ofString (Alias.render stem q)))))) ∧
    ∀ p' : Plan, p'.Built → (∀ o, p'.point? o = p.point? o) → p'.splice stem src = p.splice stem src := by
  have hinside : p.Inside src ↔ ¬ ∃ q ∈ p.points, q.names ≠ [] ∧ (q.offset < 0 ∨ (src.length : Int) < q.offset) := by
    constructor
    · rintro hin ⟨q, hq, hn, hout⟩
      have := hin q hq hn
      omega
    · intro hnone q hq hn
      by_contra hout
      exact hnone ⟨q, hq, hn, by omega⟩
  refine ⟨⟨?_, ?_⟩, ?_, ?_⟩
  · rintro ⟨o, bound, hfail⟩
    obtain ⟨q, hq, hn, hout, -⟩ := Alias.outside_of_spliceFrom _ _ _ p.descending_pairwise hfail
    exact ⟨q, mem_descending.1 hq, hn, by omega⟩
  · intro hout
    cases hsplice : p.splice stem src with
    | ok bytes => exact absurd hout (hinside.1 (Alias.inside_of_splice hsplice))
    | error e =>
      obtain ⟨q, -, -, -, bound, rfl⟩ := Alias.outside_of_spliceFrom _ _ _ p.descending_pairwise hsplice
      exact ⟨q.offset, bound, rfl⟩
  · intro hnone
    have hin := hinside.2 hnone
    rw [splice_eq_weave hin, ← Edits.insertAll_eq_weave (within_edits h.nodup hin), edits, ← ascending_eq h.nodup]
    rfl
  · intro p' h' hsame
    rw [splice, splice, descending_congr h.nodup h'.nodup hsame]

/-! ## Points at both ends of a text and in front of it -/

/-- Points asked for at the end, in front of the text and at its beginning; the one in front has no name. -/
def scattered : Plan :=
  ⟨[⟨3, ["B"], " ", "", "render"⟩, ⟨-5, [], " ", "", "renderA"⟩, ⟨0, ["A"], "\n", "; ", "renderB"⟩]⟩

theorem built_scattered : scattered.Built := by
  have hlast : (⟨[⟨3, ["B"], " ", "", "render"⟩]⟩ : Plan).Built :=
    .named (.opened (m := ⟨"render", some 3, true, "", " ", 1, 1⟩) .empty rfl) 3 "B"
  have hbefore : (⟨[⟨3, ["B"], " ", "", "render"⟩, ⟨-5, [], " ", "", "renderA"⟩]⟩ : Plan).Built :=
    .opened (m := ⟨"renderA", some (-5), true, "", " ", 1, 1⟩) hlast rfl
  exact .named (.opened (m := ⟨"renderB", some 0, true, "; ", "\n", 1, 1⟩) hbefore rfl) 0 "A"

/-- Once the point in front of the text has a name, the plan cannot be carried out. -/
theorem splice_scattered :
    scattered.splice "r" (Bytes.ofString "abc") = .ok (Bytes.ofString "; const A = this.rA;\nabcconst B = this.rB; ") ∧
    ∃ o bound, (scattered.add (-5) "C").splice "r" (Bytes.ofString "abc") = .error (.outside o bound) := by
  obtain ⟨-, hresult, -⟩ := splice_inserted built_scattered "r" (Bytes.ofString "abc")
  obtain ⟨houtside, -, -⟩ := splice_inserted (built_scattered.named (-5) "C") "r" (Bytes.ofString "abc")
  constructor
  · -- The kernel does not unfold sorting, so the order is settled apart.
    have hsorted : scattered.ascending =
        [⟨-5, [], " ", "", "renderA"⟩, ⟨0, ["A"], "\n", "; ", "renderB"⟩, ⟨3, ["B"], " ", "", "render"⟩] :=
      ascending_eq_of_perm built_scattered.nodup (by decide) (by decide)
    rw [hresult (by decide +kernel), hsorted]
    decide +kernel
  · exact houtside.2 ⟨⟨-5, ["C"], " ", "", "renderA"⟩, by decide, by decide, .inl (by decide)⟩

end Plan
end TagAlias
