import Mathlib.Data.List.Nodup
import TagAlias.Alias.Collect
import TagAlias.Proofs.Data.Sequence
/-!
# What collecting amounts to

Collecting goes through the references of all methods one by one (`collect_eq_foldlM`).  Where it succeeds, the plan has a
name at an offset exactly for the references that need an alias and whose method takes its aliases there
(`hasName_collect_iff`), and it has one point for an offset (`offsets_nodup`); where no reference needs an alias nothing is
planned (`collect_eq_empty_iff`).  A survey without a fault holds all there is (`ofResults_methods`).
-/
namespace TagAlias

theorem eq_ok_of_toOption {ε α : Type} {e : Except ε α} {a : α} (h : e.toOption = some a) : e = .ok a := by
  cases e with
  | error _ => cases h
  | ok b => rw [show b = a from Option.some.inj h]

namespace Survey

theorem upToError_fst : ∀ {α : Type} (rs : List (Except Failure α)), (upToError rs).2 = none → rs = (upToError rs).1.map .ok
  | _, [], _ => rfl
  | _, .error e :: rs, h => by cases h
  | _, .ok a :: rs, h => by
    rw [upToError, List.map_cons, ← upToError_fst rs h]

theorem upToError_map_ok : ∀ {α : Type} (xs : List α), upToError (xs.map .ok) = (xs, none)
  | _, [] => rfl
  | _, x :: xs => by rw [List.map_cons, upToError, upToError_map_ok xs]

/-- What has been found of a method with all its references, as a result. -/
def found (m : ComponentMethod × List TagReference) : Except Failure (ComponentMethod × List (Except Failure TagReference)) :=
  .ok (m.1, m.2.map .ok)

theorem found_inj {a b : ComponentMethod × List TagReference} (h : found a = found b) : a = b := by
  obtain ⟨h₁, h₂⟩ := Prod.mk.inj (Except.ok.inj h)
  exact Prod.ext h₁ ((List.map_inj_right (fun _ _ => Except.ok.inj)).1 h₂)

/-- **A survey without a fault has all methods with all their references.** -/
theorem ofResults_methods : ∀ (rs : List (Except Failure (ComponentMethod × List (Except Failure TagReference)))),
    (ofResults rs).fault = none → rs = (ofResults rs).methods.map found
  | [], _ => rfl
  | .error e :: rs, h => by cases h
  | .ok (m, refs) :: rs, h => by
    rw [ofResults] at h ⊢
    cases hrefs : upToError refs with
    | mk here fault =>
      rw [hrefs] at h
      cases fault with
      | some e => cases h
      | none =>
        have hall := upToError_fst refs (by rw [hrefs])
        rw [hrefs] at hall
        rw [List.map_cons, ← ofResults_methods rs h, found, hall]

theorem ofResults_found : ∀ (ms : List (ComponentMethod × List TagReference)), ofResults (ms.map found) = ⟨ms, none⟩
  | [] => rfl
  | (m, refs) :: ms => by
    rw [List.map_cons, found, ofResults, upToError_map_ok, ofResults_found ms]

/-- Where the scopes are known, a survey lists what the places give. -/
theorem ofTree_eq {src : Bytes} {root : Node} {s : Scopes} (h : Scopes.ofTree src root = .ok s) (stem : String)
    (asks : TagReference → Bool) :
    ofTree src stem asks root = ofResults ((root.places none []).filterMap (methodAt src stem s.isBoundAt)) := by
  simp only [ofTree, h]
  refine congrArg ofResults ((List.map_congr_left (g := id) ?_).trans (List.map_id _))
  intro e _
  cases e with
  | error f => rfl
  | ok m => rfl

end Survey

namespace Plan

theorem offset_of_point? {p : Plan} {o : Int} {q : InsertionPoint} (h : p.point? o = some q) : q.offset = o := by
  unfold point? at h
  simpa using List.find?_some h

theorem point?_openAt (p : Plan) (o : Int) (m : ComponentMethod) (o' : Int) :
    (p.openAt o m).point? o' = (p.point? o').or (if o' = o then some (.forMethod o m) else none) := by
  unfold openAt
  by_cases ho : o' = o
  · subst ho
    cases hp : p.point? o' with
    | some q => simp [hp]
    | none =>
      rw [if_neg (by simp), if_pos rfl, Option.none_or, point?, List.find?_append]
      rw [point?] at hp
      simp [hp, InsertionPoint.forMethod]
  · rw [if_neg ho, Option.or_none]
    split
    · rfl
    · simp only [point?, List.find?_append, List.find?_cons, InsertionPoint.forMethod, List.find?_nil,
        beq_false_of_ne (Ne.symm ho), Option.or_none]

theorem offset_add (q : InsertionPoint) (name : String) : (q.add name).offset = q.offset := by
  unfold InsertionPoint.add; split <;> rfl

theorem names_add (q : InsertionPoint) (name x : String) : x ∈ (q.add name).names ↔ x ∈ q.names ∨ x = name := by
  unfold InsertionPoint.add
  split
  · next h => exact ⟨.inl, fun hx => hx.elim id (fun e => e ▸ List.contains_iff_mem.1 h)⟩
  · simp

theorem point?_add (p : Plan) (o : Int) (name : String) (o' : Int) :
    (p.add o name).point? o' = (p.point? o').map (fun q => if o' = o then q.add name else q) := by
  unfold add point?
  induction p.points with
  | nil => rfl
  | cons q qs ih =>
    have hoff : (if q.offset == o then q.add name else q).offset = q.offset := by
      split
      · exact offset_add q name
      · rfl
    rw [List.map_cons, List.find?_cons, List.find?_cons, hoff]
    by_cases hq : q.offset = o'
    · subst hq; simp
    · rw [beq_false_of_ne hq]; exact ih

/-- A name asked for at an offset stands there afterwards, beside what stood there. -/
theorem hasName_add_openAt (p : Plan) (o : Int) (m : ComponentMethod) (name : String) (o' : Int) (x : String) :
    ((p.openAt o m).add o name).hasName o' x = true ↔ p.hasName o' x = true ∨ o' = o ∧ x = name := by
  unfold hasName
  rw [point?_add, point?_openAt]
  by_cases ho : o' = o
  · subst ho
    cases p.point? o' with
    | some q => simp [names_add]
    | none => simp [names_add, InsertionPoint.forMethod]
  · cases p.point? o' <;> simp [ho]

/-! ## One point for an offset -/

def offsets (p : Plan) : List Int := p.points.map (·.offset)

theorem offsets_add (p : Plan) (o : Int) (name : String) : (p.add o name).offsets = p.offsets := by
  unfold offsets add
  rw [List.map_map]
  refine List.map_congr_left (fun q _ => ?_)
  simp only [Function.comp_apply]
  split
  · exact offset_add q name
  · rfl

theorem mem_offsets_iff (p : Plan) (o : Int) : o ∈ p.offsets ↔ (p.point? o).isSome = true := by
  simp [offsets, point?]

theorem nodup_offsets_openAt {p : Plan} (h : p.offsets.Nodup) (o : Int) (m : ComponentMethod) : (p.openAt o m).offsets.Nodup := by
  unfold openAt
  split
  · exact h
  · next hnew =>
    rw [← mem_offsets_iff] at hnew
    simp only [offsets, List.map_append, List.map_cons, List.map_nil, InsertionPoint.forMethod] at hnew ⊢
    rw [List.nodup_append]
    exact ⟨h, by simp, fun a ha b hb => by rw [List.mem_singleton.1 hb]; exact fun e => hnew (e ▸ ha)⟩

theorem point?_of_mem {p : Plan} (hnodup : p.offsets.Nodup) {q : InsertionPoint} (hq : q ∈ p.points) :
    p.point? q.offset = some q := by
  cases hfound : p.point? q.offset with
  | none => simpa using List.find?_eq_none.1 hfound q hq
  | some r =>
    have hr : r ∈ p.points := List.mem_of_find?_eq_some hfound
    rw [List.inj_on_of_nodup_map hnodup hr hq (offset_of_point? hfound)]

theorem exists_of_hasName {p : Plan} {o : Int} {x : String} (h : p.hasName o x = true) :
    ∃ q, p.point? o = some q ∧ x ∈ q.names := by
  unfold hasName at h
  cases hq : p.point? o with
  | none => rw [hq] at h; cases h
  | some q =>
    rw [hq] at h
    exact ⟨q, rfl, by simpa using h⟩

end Plan

namespace Alias

def steps (methods : List (ComponentMethod × List TagReference)) : List (ComponentMethod × TagReference) :=
  methods.flatMap (fun m => m.2.map (m.1, ·))

theorem mem_steps_iff {methods : List (ComponentMethod × List TagReference)} {m : ComponentMethod} {r : TagReference} :
    (m, r) ∈ steps methods ↔ ∃ refs, (m, refs) ∈ methods ∧ r ∈ refs := by
  simp only [steps, List.mem_flatMap, List.mem_map, Prod.exists, Prod.mk.injEq]
  constructor
  · rintro ⟨m', refs, hm, r', hr, rfl, rfl⟩; exact ⟨refs, hm, hr⟩
  · rintro ⟨refs, hm, hr⟩; exact ⟨m, refs, hm, r, hr, rfl, rfl⟩

def collectStep (rule : Rule) (file : String) (c : Collection) (s : ComponentMethod × TagReference) : Except Failure Collection :=
  collectReference rule file s.1 c s.2

theorem collect_eq_foldlM (rule : Rule) (file : String) (methods : List (ComponentMethod × List TagReference)) :
    collect rule file methods = (steps methods).foldlM (collectStep rule file) ⟨.empty, []⟩ := by
  unfold collect steps
  generalize (⟨.empty, []⟩ : Collection) = c
  induction methods generalizing c with
  | nil => rfl
  | cons m ms ih =>
    rw [List.foldlM_cons, List.flatMap_cons, List.foldlM_append, List.foldlM_map]
    exact congrArg _ (funext ih)

/-- **What a step does**: nothing for a reference that needs no alias, else it puts the name at the method's offset. -/
theorem collectStep_ok {rule : Rule} {file : String} {c c' : Collection} {s : ComponentMethod × TagReference}
    (h : collectStep rule file c s = .ok c') :
    rule.qualifies s.2 = false ∧ c' = c ∨
    rule.qualifies s.2 = true ∧ ∃ o, target? s.1 = some o ∧ c'.plan = (c.plan.openAt o s.1).add o s.2.name := by
  unfold collectStep collectReference at h
  split at h
  · next hq => exact .inl ⟨by simpa using hq, (Except.ok.inj h).symm⟩
  · next hq =>
    split at h
    · cases h
    · next o ho => exact .inr ⟨by simpa using hq, o, ho, by rw [← Except.ok.inj h]⟩

/-- A reference that needs an alias there. -/
def Asked (rule : Rule) (s : ComponentMethod × TagReference) (o : Int) (name : String) : Prop :=
  rule.qualifies s.2 = true ∧ target? s.1 = some o ∧ s.2.name = name

theorem hasName_foldlM (rule : Rule) (file : String) (o : Int) (x : String) : ∀ (ss : List (ComponentMethod × TagReference))
    (c c' : Collection), ss.foldlM (collectStep rule file) c = .ok c' →
    (c'.plan.hasName o x = true ↔ c.plan.hasName o x = true ∨ ∃ s ∈ ss, Asked rule s o x)
  | [], c, c', h => by
    cases h
    simp
  | s :: ss, c, c', h => by
    obtain ⟨c₁, hs, h⟩ := foldlM_cons_ok h
    rw [hasName_foldlM rule file o x ss c₁ c' h]
    simp only [List.mem_cons, exists_eq_or_imp, ← or_assoc]
    refine or_congr ?_ Iff.rfl
    rcases collectStep_ok hs with ⟨hq, rfl⟩ | ⟨hq, o₁, ho₁, hplan⟩
    · simp [Asked, hq]
    · rw [hplan, Plan.hasName_add_openAt]
      refine or_congr Iff.rfl ⟨?_, ?_⟩
      · rintro ⟨rfl, rfl⟩; exact ⟨hq, ho₁, rfl⟩
      · rintro ⟨-, ho, hx⟩; exact ⟨Option.some.inj (ho.symm.trans ho₁), hx.symm⟩

/-- **A plan has a name at an offset exactly where a reference asks for it.** -/
theorem hasName_collect_iff {rule : Rule} {file : String} {methods : List (ComponentMethod × List TagReference)}
    {c : Collection} (h : collect rule file methods = .ok c) (o : Int) (x : String) :
    c.plan.hasName o x = true ↔ ∃ s ∈ steps methods, Asked rule s o x := by
  rw [collect_eq_foldlM] at h
  rw [hasName_foldlM rule file o x _ _ _ h]
  exact or_iff_right Bool.false_ne_true

/-- Where collecting succeeds, every method with a reference that needs an alias has a place for it. -/
theorem target_foldlM (rule : Rule) (file : String) : ∀ (ss : List (ComponentMethod × TagReference)) (c c' : Collection),
    ss.foldlM (collectStep rule file) c = .ok c' → ∀ s ∈ ss, rule.qualifies s.2 = true → ∃ o, target? s.1 = some o
  | [], _, _, _, _, hs, _ => by cases hs
  | s₀ :: ss, c, c', h, s, hs, hq => by
    obtain ⟨c₁, hs₀, h⟩ := foldlM_cons_ok h
    rcases List.mem_cons.1 hs with rfl | hs
    · rcases collectStep_ok hs₀ with ⟨hq', -⟩ | ⟨-, o, ho, -⟩
      · rw [hq] at hq'; cases hq'
      · exact ⟨o, ho⟩
    · exact target_foldlM rule file ss c₁ c' h s hs hq

theorem target_collect {rule : Rule} {file : String} {methods : List (ComponentMethod × List TagReference)}
    {c : Collection} (h : collect rule file methods = .ok c) {s : ComponentMethod × TagReference} (hs : s ∈ steps methods)
    (hq : rule.qualifies s.2 = true) : ∃ o, target? s.1 = some o :=
  target_foldlM rule file _ _ _ (by rw [← collect_eq_foldlM]; exact h) s hs hq

theorem offsets_nodup_foldlM (rule : Rule) (file : String) : ∀ (ss : List (ComponentMethod × TagReference))
    (c c' : Collection), ss.foldlM (collectStep rule file) c = .ok c' → c.plan.offsets.Nodup → c'.plan.offsets.Nodup
  | [], c, c', h, hc => by cases h; exact hc
  | s :: ss, c, c', h, hc => by
    obtain ⟨c₁, hs, h⟩ := foldlM_cons_ok h
    refine offsets_nodup_foldlM rule file ss c₁ c' h ?_
    rcases collectStep_ok hs with ⟨-, rfl⟩ | ⟨-, o, -, hplan⟩
    · exact hc
    · rw [hplan, Plan.offsets_add]; exact Plan.nodup_offsets_openAt hc o s.1

theorem offsets_nodup {rule : Rule} {file : String} {methods : List (ComponentMethod × List TagReference)}
    {c : Collection} (h : collect rule file methods = .ok c) : c.plan.offsets.Nodup := by
  rw [collect_eq_foldlM] at h
  exact offsets_nodup_foldlM rule file _ _ _ h (by decide)

theorem foldlM_of_not_qualifies (rule : Rule) (file : String) : ∀ (ss : List (ComponentMethod × TagReference))
    (c : Collection), (∀ s ∈ ss, rule.qualifies s.2 = false) → ss.foldlM (collectStep rule file) c = .ok c
  | [], _, _ => rfl
  | s :: ss, c, h => by
    have hs : collectStep rule file c s = .ok c := by
      unfold collectStep collectReference
      rw [h s List.mem_cons_self]; rfl
    rw [List.foldlM_cons, hs]
    exact foldlM_of_not_qualifies rule file ss c (fun s hs => h s (List.mem_cons_of_mem _ hs))

/-- **Nothing is planned and nothing remarked exactly where no reference needs an alias.** -/
theorem collect_eq_empty_iff (rule : Rule) (file : String) (methods : List (ComponentMethod × List TagReference)) :
    collect rule file methods = .ok ⟨.empty, []⟩ ↔ ∀ s ∈ steps methods, rule.qualifies s.2 = false := by
  constructor
  · intro h s hs
    rw [← Bool.not_eq_true]
    intro hq
    obtain ⟨o, ho⟩ := target_collect h hs hq
    have := (hasName_collect_iff h o s.2.name).2 ⟨s, hs, hq, ho, rfl⟩
    cases this
  · intro h
    rw [collect_eq_foldlM]
    exact foldlM_of_not_qualifies rule file _ _ h

theorem collectSurvey_ok {rule : Rule} {file : String} {s : Survey} {c : Collection}
    (h : collectSurvey rule file s = .ok c) : collect rule file s.methods = .ok c ∧ s.fault = none := by
  unfold collectSurvey at h
  split at h
  · cases h
  · cases h
  · next hc hf => exact ⟨hc.trans (by rw [Except.ok.inj h]), hf⟩

end Alias
end TagAlias
