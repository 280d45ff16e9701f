import TagAlias.Module
import TagAlias.Proofs.Alias.Remarked
/-!
# The two policies compared

A tag that needs an alias where the roots of qualified names are skipped is one that needs it where they are aliased and
that is no such root (`qualifies_skipped_iff`).  So what can be collected with these aliases can be collected without them,
and what is planned then is narrower: nothing is remarked, and a point is left, with those of its names, where plain tags
ask for them (`skipped_of_aliased`).
-/
namespace TagAlias

namespace Survey

/-- References told although some ask for the scopes are told where fewer do. -/
theorem withScopes_eq_of_le {scopes : Except Utf8.Fault Scopes} {asks asks' : TagReference → Bool}
    (hle : ∀ r, asks' r = true → asks r = true) : ∀ {refs : List (Except Failure TagReference)} {found : List TagReference},
    withScopes scopes asks refs = found.map .ok → withScopes scopes asks' refs = withScopes scopes asks refs := by
  cases scopes with
  | ok s => intro refs found _; rfl
  | error f =>
    intro refs found h
    refine List.map_congr_left (fun result hresult => ?_)
    have hmem := List.mem_map_of_mem (f := fun r : Except Failure TagReference =>
      r.bind (fun t => if asks t then .error (.refused (.undecodable f)) else .ok t)) hresult
    rw [show refs.map _ = found.map Except.ok from h] at hmem
    obtain ⟨t, -, ht⟩ := List.mem_map.1 hmem
    cases result with
    | error e => rfl
    | ok r =>
      have hasks : ¬ asks r = true := fun hasks => by
        simp only [Except.bind, hasks, if_true] at ht
        cases ht
      simp only [Except.bind, if_neg hasks, if_neg (fun h => hasks (hle r h))]

/-- **A survey without a fault is the same where fewer references ask for the scopes.** -/
theorem ofTree_eq_of_le {src : Bytes} {stem : String} {root : Node} {asks asks' : TagReference → Bool}
    (hle : ∀ r, asks' r = true → asks r = true) (h : (ofTree src stem asks root).fault = none) :
    ofTree src stem asks' root = ofTree src stem asks root := by
  have hall := ofResults_methods _ h
  unfold ofTree
  refine congrArg ofResults (List.map_congr_left (fun e he => ?_))
  have hmem := List.mem_map_of_mem (f := fun m : Except Failure (ComponentMethod × List (Except Failure TagReference)) =>
    m.map (fun m => (m.1, withScopes (Scopes.ofTree src root) asks m.2))) he
  rw [show List.map _ _ = List.map found _ from hall] at hmem
  obtain ⟨found, -, hfound⟩ := List.mem_map.1 hmem
  cases e with
  | error f => rfl
  | ok m =>
    have hrefs : withScopes (Scopes.ofTree src root) asks m.2 = found.2.map .ok := (Prod.mk.inj (Except.ok.inj hfound)).2.symm
    simp only [Except.map, withScopes_eq_of_le hle hrefs]

end Survey

namespace Alias

def aliasing (stem : String) : Rule := ⟨stem, .aliased⟩

def skipping (stem : String) : Rule := ⟨stem, .skipped⟩

/-- A plain tag needs an alias of a name at an offset. -/
def PlainAt (stem : String) (methods : List (ComponentMethod × List TagReference)) (o : Int) (x : String) : Prop :=
  ∃ m ∈ methods, m.1.bodyStart = some o ∧
    ∃ r ∈ m.2, (aliasing stem).qualifies r = true ∧ r.isMemberRoot = false ∧ r.name = x

/-- What is collected for plain tags, beside what is collected for all. -/
structure Narrows (stem : String) (methods : List (ComponentMethod × List TagReference)) (wide narrow : Collection) : Prop where
  unremarked : narrow.diagnostics = []
  once : (narrow.plan.points.map (·.offset)).Nodup
  points : ∀ o, (∃ q ∈ narrow.plan.points, q.offset = o) ↔
    ∃ q ∈ wide.plan.points, q.offset = o ∧ ∃ x ∈ q.names, PlainAt stem methods o x
  names : ∀ q ∈ narrow.plan.points, ∀ q' ∈ wide.plan.points, q.offset = q'.offset →
    ∀ x, x ∈ q.names ↔ x ∈ q'.names ∧ PlainAt stem methods q'.offset x
  /-- Where all methods that start at an offset would lay out the point in one way. -/
  layout : ∀ q ∈ narrow.plan.points, ∀ q' ∈ wide.plan.points, q.offset = q'.offset →
    (∀ m ∈ methods, m.1.bodyStart = some q'.offset →
      m.1.separator = q'.separator ∧ m.1.lead = q'.lead ∧ m.1.name = q'.method) →
    q.separator = q'.separator ∧ q.lead = q'.lead ∧ q.method = q'.method

variable {stem file : String}

theorem asks_of_skipping {r : TagReference} (h : (skipping stem).asks r = true) : (aliasing stem).asks r = true := by
  unfold Rule.asks skipping aliasing at *
  simp at h ⊢
  exact h.1

theorem qualifies_skipped_iff {r : TagReference} :
    (skipping stem).qualifies r = true ↔ (aliasing stem).qualifies r = true ∧ r.isMemberRoot = false := by
  unfold Rule.qualifies Rule.asks skipping aliasing
  cases r.isMemberRoot <;> simp

theorem exists_collect_skipped {methods : List (ComponentMethod × List TagReference)} {c : Collection}
    (h : collect (aliasing stem) file methods = .ok c) : ∃ c', collect (skipping stem) file methods = .ok c' := by
  cases hskipped : collect (skipping stem) file methods with
  | ok c' => exact ⟨c', rfl⟩
  | error e =>
    obtain ⟨m, hm, hrefuses⟩ := (exists_collect_error_iff _ file methods).1 ⟨e, hskipped⟩
    obtain ⟨hlacks, hany⟩ := Bool.and_eq_true_iff.1 hrefuses
    obtain ⟨r, hr, hq⟩ := List.any_eq_true.1 hany
    have hany' : m.2.any (aliasing stem).qualifies = true := List.any_eq_true.2 ⟨r, hr, (qualifies_skipped_iff.1 hq).1⟩
    obtain ⟨e', hfail⟩ := (exists_collect_error_iff _ file methods).2 ⟨m, hm, Bool.and_eq_true_iff.2 ⟨hlacks, hany'⟩⟩
    rw [h] at hfail
    cases hfail

/-- Where the roots of qualified names are skipped, nothing is remarked. -/
theorem diagnostics_skipped {methods : List (ComponentMethod × List TagReference)} {c : Collection}
    (h : collect (skipping stem) file methods = .ok c) : c.diagnostics = [] := by
  have hnone : ∀ e, remarkAt (skipping stem) (steps methods) e = none := by
    rintro ⟨o, x⟩
    cases huses : usesAt (skipping stem) (steps methods) (o, x) with
    | nil => rw [remarkAt, huses]; rfl
    | cons s rest =>
      have hasked := (mem_usesAt_iff.1 (huses ▸ List.mem_cons_self : s ∈ usesAt (skipping stem) (steps methods) (o, x))).2
      have hplain := (qualifies_skipped_iff.1 hasked.1).2
      simp [remarkAt, huses, hplain]
  have hperm := diagnostics_perm _ c (by rw [← collect_eq_foldlM]; exact h)
  rw [funext hnone, List.filterMap_none] at hperm
  exact hperm.eq_nil

theorem narrows_of_collect {methods : List (ComponentMethod × List TagReference)} {c c' : Collection}
    (h : collect (aliasing stem) file methods = .ok c) (h' : collect (skipping stem) file methods = .ok c') :
    Narrows stem methods c c' where
  unremarked := diagnostics_skipped h'
  once := offsets_nodup h'
  points o := by
    rw [exists_point_iff h']
    constructor
    · rintro ⟨m, hm, ho, r, hr, hq⟩
      obtain ⟨hqualifies, hplain⟩ := qualifies_skipped_iff.1 hq
      obtain ⟨q, hq, rfl⟩ := (exists_point_iff h o).2 ⟨m, hm, ho, r, hr, hqualifies⟩
      exact ⟨q, hq, rfl, r.name, (mem_names_iff h hq).2 ⟨m, hm, ho, r, hr, hqualifies, rfl⟩,
        m, hm, ho, r, hr, hqualifies, hplain, rfl⟩
    · rintro ⟨q, -, -, x, -, m, hm, ho, r, hr, hqualifies, hplain, -⟩
      exact ⟨m, hm, ho, r, hr, qualifies_skipped_iff.2 ⟨hqualifies, hplain⟩⟩
  names q hq q' hq' ho x := by
    rw [mem_names_iff h' hq, mem_names_iff h hq', ho]
    constructor
    · rintro ⟨m, hm, ho, r, hr, hq, rfl⟩
      obtain ⟨hqualifies, hplain⟩ := qualifies_skipped_iff.1 hq
      exact ⟨⟨m, hm, ho, r, hr, hqualifies, rfl⟩, m, hm, ho, r, hr, hqualifies, hplain, rfl⟩
    · rintro ⟨-, m, hm, ho, r, hr, hqualifies, hplain, hx⟩
      exact ⟨m, hm, ho, r, hr, qualifies_skipped_iff.2 ⟨hqualifies, hplain⟩, hx⟩
  layout q hq q' hq' ho hsame := by
    obtain ⟨m, hm, heq⟩ := Option.map_eq_some_iff.1 (pointAt_of_mem h' hq)
    have hfound := List.find?_some hm
    have hstart := beq_iff_eq.1 (Bool.and_eq_true_iff.1 hfound).1
    obtain ⟨hseparator, hlead, hmethod⟩ := hsame m (List.mem_of_find?_eq_some hm) (ho ▸ hstart)
    rw [← heq]
    exact ⟨hseparator, hlead, hmethod⟩

/-- **The two policies are related.**  Where collecting succeeds with aliases for the roots of qualified names, it succeeds
without them.  Then nothing is remarked; a point is planned just where a point with a name that a plain tag asks for was
planned, and it has just those of its names.  This holds for methods with their tags, and for the survey of a module, which
need not know the scopes where no tag asks for them. -/
theorem skipped_of_aliased (stem file : String) :
    (∀ methods c, collect (aliasing stem) file methods = .ok c →
      ∃ c', collect (skipping stem) file methods = .ok c' ∧ Narrows stem methods c c') ∧
    ∀ (m : Module) c, collectSurvey (aliasing stem) file (m.survey stem (aliasing stem).asks) = .ok c →
      ∃ c', collectSurvey (skipping stem) file (m.survey stem (skipping stem).asks) = .ok c' ∧
        Narrows stem (m.survey stem (aliasing stem).asks).methods c c' := by
  constructor
  · intro methods c h
    obtain ⟨c', h'⟩ := exists_collect_skipped h
    exact ⟨c', h', narrows_of_collect h h'⟩
  · intro m c h
    obtain ⟨hcollect, hfault⟩ := collectSurvey_ok h
    obtain ⟨c', h'⟩ := exists_collect_skipped hcollect
    have hsurvey : m.survey stem (skipping stem).asks = m.survey stem (aliasing stem).asks :=
      Survey.ofTree_eq_of_le (fun _ => asks_of_skipping) hfault
    refine ⟨c', ?_, narrows_of_collect hcollect h'⟩
    rw [hsurvey, collectSurvey, h', hfault]

/-! ## Plain and qualified tags at a shared point -/

/-- Two methods whose bodies start at one offset, and one with a qualified tag alone. -/
def sharedPoint : List (ComponentMethod × List TagReference) :=
  [(⟨"render", some 10, true, "", " ", 1, 1⟩,
      [⟨"Ui", true, 1, 12, false⟩, ⟨"Foo", false, 1, 20, false⟩, ⟨"Ui", false, 1, 30, false⟩]),
    (⟨"renderA", some 50, true, "", " ", 2, 1⟩, [⟨"Ui", true, 2, 12, false⟩]),
    (⟨"renderB", some 10, true, "", " ", 3, 1⟩, [⟨"Bar", false, 3, 12, false⟩, ⟨"Foo", true, 3, 20, false⟩])]

def sharedAliases : Collection :=
  ⟨⟨[⟨10, ["Ui", "Foo", "Bar"], " ", "", "render"⟩, ⟨50, ["Ui"], " ", "", "renderA"⟩]⟩,
    [memberRootDiagnostic "render" ⟨"render", some 10, true, "", " ", 1, 1⟩ ⟨"Ui", true, 1, 12, false⟩,
      memberRootDiagnostic "render" ⟨"renderA", some 50, true, "", " ", 2, 1⟩ ⟨"Ui", true, 2, 12, false⟩]⟩

/-- Without the qualified tags the second method has no point, and the names of the other point come in another order. -/
theorem skipped_sharedPoint : collect (aliasing "render") "" sharedPoint = .ok sharedAliases ∧
    ∃ c', collect (skipping "render") "" sharedPoint = .ok c' ∧ Narrows "render" sharedPoint sharedAliases c' ∧
      c'.plan = ⟨[⟨10, ["Foo", "Ui", "Bar"], " ", "", "render"⟩]⟩ := by
  have haliased : collect (aliasing "render") "" sharedPoint = .ok sharedAliases := eq_ok_of_toOption (by decide +kernel)
  obtain ⟨c', h', hnarrows⟩ := (skipped_of_aliased "render" "").1 sharedPoint sharedAliases haliased
  have hplan : (collect (skipping "render") "" sharedPoint).toOption.map (·.plan) =
      some ⟨[⟨10, ["Foo", "Ui", "Bar"], " ", "", "render"⟩]⟩ := by decide +kernel
  rw [h'] at hplan
  exact ⟨haliased, c', h', hnarrows, Option.some.inj hplan⟩

end Alias
end TagAlias
