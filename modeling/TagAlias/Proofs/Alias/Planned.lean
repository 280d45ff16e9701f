import Mathlib.Data.List.Induction
import TagAlias.Proofs.Alias.Collected
import TagAlias.Proofs.Data.Sequence
/-!
# What is planned and what is refused

Collecting fails exactly where a method without a body has a tag that needs an alias, and tells of the first such method
and the first such tag in it (`collect_error_iff`).  Else the point at an offset is settled by the methods whose bodies
start there (`point?_collect`): their names in order without repetitions, everything else as the first of them that has a
tag in need of an alias asks for it.
-/
namespace TagAlias
namespace Alias

def lacksBody (m : ComponentMethod) : Bool := !m.hasBody || m.bodyStart.isNone

/-- Whether a method without a body has a tag that needs an alias. -/
def refuses (rule : Rule) (m : ComponentMethod × List TagReference) : Bool := lacksBody m.1 && m.2.any rule.qualifies

/-- The names asked for at an offset, one for each tag that needs an alias. -/
def namesAt (rule : Rule) (methods : List (ComponentMethod × List TagReference)) (o : Int) : List String :=
  (methods.filter (·.1.bodyStart == some o)).flatMap (fun m => (m.2.filter rule.qualifies).map (·.name))

/-- The point at an offset as the methods ask for it. -/
def pointAt (rule : Rule) (methods : List (ComponentMethod × List TagReference)) (o : Int) : Option InsertionPoint :=
  (methods.find? (fun m => m.1.bodyStart == some o && m.2.any rule.qualifies)).map
    (fun m => ⟨o, (namesAt rule methods o).eraseDups, m.1.separator, m.1.lead, m.1.name⟩)

theorem target?_eq_none_iff (m : ComponentMethod) : target? m = none ↔ lacksBody m = true := by
  unfold target? lacksBody
  by_cases h : m.hasBody = true
  · simp [h]
  · simp [h]

theorem target?_of_not_lacksBody {m : ComponentMethod} (h : lacksBody m = false) : target? m = m.bodyStart := by
  have hbody : m.hasBody = true := by
    unfold lacksBody at h
    simp at h
    exact h.1
  rw [target?, if_pos hbody]

/-! ## Refusals -/

theorem foldlM_collectReference_error_iff (rule : Rule) (file : String) (m : ComponentMethod) (e : Failure) :
    ∀ (refs : List TagReference) (c : Collection), refs.foldlM (collectReference rule file m) c = .error e ↔
      lacksBody m = true ∧ ∃ r, refs.find? rule.qualifies = some r ∧ e = noBody file m r
  | [], c => by
    constructor
    · intro h; cases h
    · rintro ⟨-, r, h, -⟩; cases h
  | r :: refs, c => by
    rw [List.foldlM_cons, List.find?_cons]
    by_cases hq : rule.qualifies r = true
    · have hfirst : ∀ e, (∃ r', some r = some r' ∧ e = noBody file m r') ↔ e = noBody file m r := by simp
      rw [hq, hfirst]
      cases ht : target? m with
      | none =>
        have hstep : collectReference rule file m c r = .error (noBody file m r) := by
          simp [collectReference, hq, ht]
        rw [hstep]
        constructor
        · intro h; exact ⟨(target?_eq_none_iff m).1 ht, (Except.error.inj h).symm⟩
        · rintro ⟨-, rfl⟩; rfl
      | some o =>
        have hbody : lacksBody m ≠ true := fun h => by rw [(target?_eq_none_iff m).2 h] at ht; cases ht
        obtain ⟨c', hstep⟩ : ∃ c', collectReference rule file m c r = .ok c' := by
          simp [collectReference, hq, ht]
        rw [hstep]
        constructor
        · intro h
          exact absurd ((foldlM_collectReference_error_iff rule file m e refs c').1 h).1 hbody
        · rintro ⟨h, -⟩; exact absurd h hbody
    · have hstep : collectReference rule file m c r = .ok c := by
        simp [collectReference, hq]
      rw [hstep]
      simp only [hq]
      exact foldlM_collectReference_error_iff rule file m e refs c

/-- **Collecting fails for the first method without a body that has a tag in need of an alias**, and for its first such
tag. -/
theorem foldlM_collectMethod_error_iff (rule : Rule) (file : String) (e : Failure) :
    ∀ (methods : List (ComponentMethod × List TagReference)) (c : Collection),
      methods.foldlM (collectMethod rule file) c = .error e ↔
        ∃ m r, methods.find? (refuses rule) = some m ∧
          m.2.find? rule.qualifies = some r ∧ e = noBody file m.1 r
  | [], c => by
    constructor
    · intro h; cases h
    · rintro ⟨m, r, h, -⟩; cases h
  | m :: methods, c => by
    rw [List.foldlM_cons, List.find?_cons]
    have hone := foldlM_collectReference_error_iff rule file m.1
    by_cases hm : refuses rule m = true
    · obtain ⟨hlacks, hany⟩ := Bool.and_eq_true_iff.1 hm
      obtain ⟨r, hr⟩ := Option.isSome_iff_exists.1 (List.find?_isSome.2 (List.any_eq_true.1 hany))
      have hfail : collectMethod rule file c m = .error (noBody file m.1 r) := (hone _ m.2 c).2 ⟨hlacks, r, hr, rfl⟩
      rw [hfail, hm]
      constructor
      · intro h
        exact ⟨m, r, rfl, hr, (Except.error.inj h).symm⟩
      · rintro ⟨m', r', hm', hr', rfl⟩
        obtain rfl := Option.some.inj hm'
        obtain rfl := Option.some.inj (hr.symm.trans hr')
        rfl
    · have hgoes : ∃ c', collectMethod rule file c m = .ok c' := by
        cases hstep : collectMethod rule file c m with
        | ok c' => exact ⟨c', rfl⟩
        | error e' =>
          obtain ⟨hlacks, r, hr, -⟩ := (hone e' m.2 c).1 hstep
          have hany : m.2.any rule.qualifies = true :=
            List.any_eq_true.2 (List.find?_isSome.1 (by rw [hr]; rfl))
          exact absurd (Bool.and_eq_true_iff.2 ⟨hlacks, hany⟩) hm
      obtain ⟨c', hstep⟩ := hgoes
      rw [hstep]
      simp only [hm]
      exact foldlM_collectMethod_error_iff rule file e methods c'

theorem collect_error_iff (rule : Rule) (file : String) (methods : List (ComponentMethod × List TagReference)) (e : Failure) :
    collect rule file methods = .error e ↔
      ∃ m r, methods.find? (refuses rule) = some m ∧
        m.2.find? rule.qualifies = some r ∧ e = noBody file m.1 r :=
  foldlM_collectMethod_error_iff rule file e methods _

theorem exists_collect_error_iff (rule : Rule) (file : String) (methods : List (ComponentMethod × List TagReference)) :
    (∃ e, collect rule file methods = .error e) ↔ ∃ m ∈ methods, refuses rule m = true := by
  constructor
  · rintro ⟨e, h⟩
    obtain ⟨m, r, hm, -⟩ := (collect_error_iff rule file methods e).1 h
    exact ⟨m, List.mem_of_find?_eq_some hm, List.find?_some hm⟩
  · intro h
    obtain ⟨m, hm⟩ := Option.isSome_iff_exists.1 (List.find?_isSome.2 h)
    have hrefuses : refuses rule m = true := List.find?_some hm
    obtain ⟨r, hr⟩ := Option.isSome_iff_exists.1
      (List.find?_isSome.2 (List.any_eq_true.1 (Bool.and_eq_true_iff.1 hrefuses).2))
    exact ⟨_, (collect_error_iff rule file methods _).2 ⟨m, r, hm, hr, rfl⟩⟩

/-! ## Points -/

theorem eraseDups_concat {α : Type} [BEq α] [LawfulBEq α] [DecidableEq α] (xs : List α) (x : α) :
    (xs ++ [x]).eraseDups = if x ∈ xs then xs.eraseDups else xs.eraseDups ++ [x] := by
  rw [List.eraseDups_append]
  by_cases h : x ∈ xs
  · simp [List.removeAll, h]
  · simp [List.removeAll, h, List.eraseDups_cons]

/-- The references that ask for a name at an offset, each with its method. -/
def stepsAt (rule : Rule) (o : Int) (ss : List (ComponentMethod × TagReference)) : List (ComponentMethod × TagReference) :=
  ss.filter (fun s => rule.qualifies s.2 && target? s.1 == some o)

/-- The point that references ask for one after the other. -/
def pointOf (o : Int) (ss : List (ComponentMethod × TagReference)) : Option InsertionPoint :=
  ss.head?.map (fun s => ⟨o, (ss.map (·.2.name)).eraseDups, s.1.separator, s.1.lead, s.1.name⟩)

theorem pointOf_concat (o : Int) (ss : List (ComponentMethod × TagReference)) (s : ComponentMethod × TagReference) :
    pointOf o (ss ++ [s]) = some (((pointOf o ss).getD (.forMethod o s.1)).add s.2.name) := by
  cases ss with
  | nil => simp [pointOf, InsertionPoint.forMethod, InsertionPoint.add, List.eraseDups_cons]
  | cons s₀ ss =>
    have hnames := eraseDups_concat ((s₀ :: ss).map (·.2.name)) s.2.name
    have hpoint : pointOf o (s₀ :: ss) =
        some ⟨o, ((s₀ :: ss).map (·.2.name)).eraseDups, s₀.1.separator, s₀.1.lead, s₀.1.name⟩ := rfl
    rw [hpoint, Option.getD_some, InsertionPoint.add, pointOf, List.map_append, List.map_singleton, hnames]
    by_cases hin : s.2.name ∈ (s₀ :: ss).map (·.2.name)
    · have hthere : ((s₀ :: ss).map (·.2.name)).eraseDups.contains s.2.name = true :=
        List.contains_iff_mem.2 (List.mem_eraseDups.2 hin)
      rw [if_pos hin, if_pos hthere]; rfl
    · have hnew : ¬ ((s₀ :: ss).map (·.2.name)).eraseDups.contains s.2.name = true :=
        fun h => hin (List.mem_eraseDups.1 (List.contains_iff_mem.1 h))
      rw [if_neg hin, if_neg hnew]; rfl

/-- What a reference does to the point at an offset. -/
theorem point?_collectStep {rule : Rule} {file : String} {c c' : Collection} {s : ComponentMethod × TagReference}
    (h : collectStep rule file c s = .ok c') (o : Int) :
    c'.plan.point? o = if rule.qualifies s.2 && target? s.1 == some o
      then some (((c.plan.point? o).getD (.forMethod o s.1)).add s.2.name) else c.plan.point? o := by
  rcases collectStep_ok h with ⟨hq, rfl⟩ | ⟨hq, o', ho', hplan⟩
  · simp [hq]
  · rw [hplan, Plan.point?_add, Plan.point?_openAt, hq, ho']
    by_cases ho : o = o'
    · subst ho
      cases c.plan.point? o <;> simp
    · have hne : (some o' == some o) = false := by simpa using Ne.symm ho
      rw [hne]
      cases c.plan.point? o <;> simp [ho]

theorem point?_foldlM (rule : Rule) (file : String) (o : Int) (ss : List (ComponentMethod × TagReference)) :
    ∀ c, ss.foldlM (collectStep rule file) ⟨.empty, []⟩ = .ok c → c.plan.point? o = pointOf o (stepsAt rule o ss) := by
  induction ss using List.reverseRecOn with
  | nil =>
    intro c h
    cases h
    rfl
  | append_singleton ss s ih =>
    intro c h
    obtain ⟨c₁, hbefore, hstep⟩ := foldlM_concat_ok h
    have hsplit : stepsAt rule o (ss ++ [s]) = stepsAt rule o ss ++
        if rule.qualifies s.2 && target? s.1 == some o then [s] else [] := by
      rw [stepsAt, List.filter_append, List.filter_cons, List.filter_nil]; rfl
    rw [point?_collectStep hstep o, ih c₁ hbefore, hsplit]
    by_cases hasks : (rule.qualifies s.2 && target? s.1 == some o) = true
    · rw [if_pos hasks, if_pos hasks, pointOf_concat]
    · rw [if_neg hasks, if_neg hasks, List.append_nil]

/-- The references of methods with a body start that need an alias, each with its method. -/
theorem stepsAt_steps {rule : Rule} (o : Int) : ∀ (methods : List (ComponentMethod × List TagReference)),
    (∀ m ∈ methods, refuses rule m = false) →
    stepsAt rule o (steps methods) = (methods.filter (·.1.bodyStart == some o)).flatMap
      (fun m => (m.2.filter rule.qualifies).map (m.1, ·))
  | [], _ => rfl
  | m :: methods, h => by
    have hrest := stepsAt_steps o methods (fun m' hm' => h m' (List.mem_cons_of_mem _ hm'))
    have hhere : stepsAt rule o (m.2.map (m.1, ·)) =
        if m.1.bodyStart == some o then (m.2.filter rule.qualifies).map (m.1, ·) else [] := by
      rw [stepsAt, List.filter_map]
      by_cases hany : m.2.any rule.qualifies = true
      · have hlacks : lacksBody m.1 = false := by
          have hgoes := h m List.mem_cons_self
          rw [refuses, hany, Bool.and_true] at hgoes
          exact hgoes
        have htarget := target?_of_not_lacksBody hlacks
        by_cases ho : (m.1.bodyStart == some o) = true
        · simp only [Function.comp_def, htarget, ho, Bool.and_true, if_true]
        · simp [Function.comp_def, htarget, ho]
      · have hnone : m.2.filter rule.qualifies = [] := by
          rw [List.filter_eq_nil_iff]
          intro r hr hq
          exact hany (List.any_eq_true.2 ⟨r, hr, hq⟩)
        have hnone' : m.2.filter (fun r => rule.qualifies r && target? m.1 == some o) = [] := by
          rw [List.filter_eq_nil_iff] at hnone ⊢
          intro r hr hq
          exact hnone r hr (Bool.and_eq_true_iff.1 hq).1
        simp only [Function.comp_def, hnone, hnone', List.map_nil, ite_self]
    have hsplit : stepsAt rule o (steps (m :: methods)) = stepsAt rule o (m.2.map (m.1, ·)) ++ stepsAt rule o (steps methods) := by
      rw [steps, List.flatMap_cons, stepsAt, List.filter_append]; rfl
    rw [hsplit, hhere, hrest, List.filter_cons]
    by_cases ho : (m.1.bodyStart == some o) = true
    · rw [if_pos ho, if_pos ho, List.flatMap_cons]
    · rw [if_neg ho, if_neg ho, List.nil_append]

/-- The first reference in need of an alias stands in the first method that has one. -/
theorem head?_needs {α : Type} (rule : Rule) (f : ComponentMethod → α) : ∀ (methods : List (ComponentMethod × List TagReference)),
    (methods.flatMap (fun m => (m.2.filter rule.qualifies).map (m.1, ·))).head?.map (fun s => f s.1) =
      (methods.find? (fun m => m.2.any rule.qualifies)).map (fun m => f m.1)
  | [] => rfl
  | m :: methods => by
    have hrest := head?_needs rule f methods
    rw [List.flatMap_cons, List.head?_append, List.head?_map, List.head?_filter, List.find?_cons]
    cases hfound : m.2.find? rule.qualifies with
    | none =>
      have hany : m.2.any rule.qualifies = false := by
        rw [List.find?_eq_none] at hfound
        rw [List.any_eq_false]
        exact hfound
      rw [hany]
      exact hrest
    | some r =>
      have hany : m.2.any rule.qualifies = true := List.any_eq_true.2 (List.find?_isSome.1 (by rw [hfound]; rfl))
      rw [hany]; rfl

theorem pointOf_stepsAt {rule : Rule} (o : Int) (methods : List (ComponentMethod × List TagReference))
    (h : ∀ m ∈ methods, refuses rule m = false) :
    pointOf o (stepsAt rule o (steps methods)) = pointAt rule methods o := by
  have hnames : (stepsAt rule o (steps methods)).map (·.2.name) = namesAt rule methods o := by
    rw [stepsAt_steps o methods h, List.map_flatMap, namesAt]
    simp only [List.map_map, Function.comp_def]
  have hhead := head?_needs rule
    (fun m => (⟨o, (namesAt rule methods o).eraseDups, m.separator, m.lead, m.name⟩ : InsertionPoint))
    (methods.filter (·.1.bodyStart == some o))
  simp only [List.find?_filter, ← stepsAt_steps o methods h, Bool.decide_and, Bool.decide_eq_true] at hhead
  rw [pointOf, hnames]
  exact hhead

/-- **Where collecting succeeds, the point at an offset is the one that the methods ask for there.** -/
theorem point?_collect {rule : Rule} {file : String} {methods : List (ComponentMethod × List TagReference)} {c : Collection}
    (h : collect rule file methods = .ok c) (o : Int) : c.plan.point? o = pointAt rule methods o := by
  have hbodies : ∀ m ∈ methods, refuses rule m = false := by
    intro m hm
    by_contra hrefuses
    have hsome : (methods.find? (refuses rule)).isSome = true :=
      List.find?_isSome.2 ⟨m, hm, by simpa using hrefuses⟩
    obtain ⟨e, hfail⟩ := (exists_collect_error_iff rule file methods).2 ⟨m, hm, by simpa using hrefuses⟩
    rw [h] at hfail
    cases hfail
  rw [collect_eq_foldlM] at h
  rw [point?_foldlM rule file o _ c h, pointOf_stepsAt o methods hbodies]

theorem mem_namesAt_iff {rule : Rule} {methods : List (ComponentMethod × List TagReference)} {o : Int} {x : String} :
    x ∈ namesAt rule methods o ↔
      ∃ m ∈ methods, m.1.bodyStart = some o ∧ ∃ r ∈ m.2, rule.qualifies r = true ∧ r.name = x := by
  simp only [namesAt, List.mem_flatMap, List.mem_filter, List.mem_map, beq_iff_eq, and_assoc]

section

variable {rule : Rule} {file : String} {methods : List (ComponentMethod × List TagReference)} {c : Collection}
  (h : collect rule file methods = .ok c)

include h

theorem pointAt_of_mem {q : InsertionPoint} (hq : q ∈ c.plan.points) : pointAt rule methods q.offset = some q := by
  rw [← point?_collect h, Plan.point?_of_mem (offsets_nodup h) hq]

theorem exists_point_iff (o : Int) : (∃ q ∈ c.plan.points, q.offset = o) ↔
    ∃ m ∈ methods, m.1.bodyStart = some o ∧ ∃ r ∈ m.2, rule.qualifies r = true := by
  have hmem : (∃ q ∈ c.plan.points, q.offset = o) ↔ (c.plan.point? o).isSome = true := by
    rw [← Plan.mem_offsets_iff, Plan.offsets, List.mem_map]
  rw [hmem, point?_collect h, pointAt, Option.isSome_map, List.find?_isSome]
  simp only [Bool.and_eq_true, beq_iff_eq, List.any_eq_true]

theorem mem_names_iff {q : InsertionPoint} (hq : q ∈ c.plan.points) {x : String} : x ∈ q.names ↔
    ∃ m ∈ methods, m.1.bodyStart = some q.offset ∧ ∃ r ∈ m.2, rule.qualifies r = true ∧ r.name = x := by
  obtain ⟨m, -, heq⟩ := Option.map_eq_some_iff.1 (pointAt_of_mem h hq)
  rw [← mem_namesAt_iff, ← congrArg InsertionPoint.names heq]
  exact List.mem_eraseDups

/-- **No point of a plan is empty.** -/
theorem names_ne_nil {q : InsertionPoint} (hq : q ∈ c.plan.points) : q.names ≠ [] := by
  obtain ⟨m, hm, hstart, r, hr, hqualifies⟩ := (exists_point_iff h q.offset).1 ⟨q, hq, rfl⟩
  exact List.ne_nil_of_mem ((mem_names_iff h hq).2 ⟨m, hm, hstart, r, hr, hqualifies, rfl⟩)

end

/-- **What collecting comes to.**  It fails exactly where a method without a body has a tag in need of an alias, and tells of
the first such method and its first such tag.  Else there is one point for each offset at which the body of a method with a
tag in need of an alias starts; it has the names that the methods with this body start ask for, in order and each once, and
is laid out as the first of them that asks for one says. -/
theorem collect_planned (rule : Rule) (file : String) (methods : List (ComponentMethod × List TagReference)) :
    ((∃ remark name, collect rule file methods = .error (.unsupported remark name)) ↔
      ∃ m ∈ methods, lacksBody m.1 = true ∧ ∃ r ∈ m.2, rule.qualifies r = true) ∧
    (∀ e, collect rule file methods = .error e → ∃ m r,
      methods.find? (fun m => lacksBody m.1 && m.2.any rule.qualifies) = some m ∧ m.2.find? rule.qualifies = some r ∧
      e = .unsupported ⟨"Component method '" ++ m.1.name ++ "' has no body to receive the alias for <" ++ r.name ++ ">",
        file, r.line, r.column⟩ m.1.name) ∧
    ∀ c, collect rule file methods = .ok c →
      (c.plan.points.map (·.offset)).Nodup ∧ (∀ q ∈ c.plan.points, q.names ≠ []) ∧
      (∀ o, (∃ q ∈ c.plan.points, q.offset = o) ↔
        ∃ m ∈ methods, m.1.bodyStart = some o ∧ ∃ r ∈ m.2, rule.qualifies r = true) ∧
      ∀ q ∈ c.plan.points, q.names = (namesAt rule methods q.offset).eraseDups ∧
        ∃ m, methods.find? (fun m => m.1.bodyStart == some q.offset && m.2.any rule.qualifies) = some m ∧
          q.separator = m.1.separator ∧ q.lead = m.1.lead ∧ q.method = m.1.name := by
  refine ⟨?_, ?_, ?_⟩
  · have hrefuses : (∃ m ∈ methods, refuses rule m = true) ↔
        ∃ m ∈ methods, lacksBody m.1 = true ∧ ∃ r ∈ m.2, rule.qualifies r = true := by
      simp only [refuses, Bool.and_eq_true, List.any_eq_true]
    rw [← hrefuses, ← exists_collect_error_iff rule file]
    constructor
    · rintro ⟨remark, name, h⟩
      exact ⟨_, h⟩
    · rintro ⟨e, h⟩
      obtain ⟨m, r, -, -, rfl⟩ := (collect_error_iff rule file methods e).1 h
      exact ⟨_, _, h⟩
  · intro e h
    exact (collect_error_iff rule file methods e).1 h
  · intro c h
    refine ⟨offsets_nodup h, fun q hq => names_ne_nil h hq, exists_point_iff h, ?_⟩
    intro q hq
    obtain ⟨m, hm, heq⟩ := Option.map_eq_some_iff.1 (pointAt_of_mem h hq)
    have hnames := congrArg InsertionPoint.names heq
    have hlayout := congrArg (fun q => (q.separator, q.lead, q.method)) heq
    simp only [Prod.mk.injEq] at hlayout
    exact ⟨hnames.symm, m, hm, hlayout.1.symm, hlayout.2.1.symm, hlayout.2.2.symm⟩

end Alias
end TagAlias
