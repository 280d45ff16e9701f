import TagAlias.Proofs.Alias.Inserted
import TagAlias.Proofs.Alias.Planned
/-!
# What calls make of a plan

A plan grows by two kinds of calls in any order: a method asks for its point, or a point takes a name.  The calls so far
settle the plan.  There is one point for each body start that was asked for, laid out as the first method that asked for it
says, with the names that it took since, each once (`point?_after`); a name is told to be new exactly if the point has not
taken it before (`answerTo_add`); and the plan is empty as long as no name was new (`isEmpty_after`).
-/
namespace TagAlias
namespace Plan

/-- A call on a plan: a method asks for its point, or the point at an offset takes a name. -/
inductive Call where
  | point (m : ComponentMethod)
  | add (offset : Int) (name : String)
  deriving DecidableEq, Repr

inductive Answer where
  /-- The point for the method, as it stands then. -/
  | point (q : Option InsertionPoint)
  /-- Whether the name is new. -/
  | added (isNew : Bool)
  | refused (cause : Refusal)
  deriving DecidableEq, Repr

/-- The plan after a call, and the answer.  Who adds a name has been given the point, so there is one. -/
def call (p : Plan) : Call → Plan × Answer
  | .point m =>
    match p.openFor m with
    | .ok p' => (p', .point (m.bodyStart.bind p'.point?))
    | .error e => (p, .refused e)
  | .add o x => if (p.point? o).isSome then (p.add o x, .added (!p.hasName o x)) else (p, .refused .noSuchKey)

def after (calls : List Call) : Plan := calls.foldl (fun p c => (p.call c).1) .empty

def answerTo (before : List Call) (c : Call) : Answer := ((after before).call c).2

/-! ## The calls so far -/

/-- The body start for which a call asks. -/
def Call.start? : Call → Option Int
  | .point m => m.bodyStart
  | .add _ _ => none

/-- The body starts that were asked for, in order. -/
def starts (calls : List Call) : List Int := calls.filterMap Call.start?

/-- The method that asks for the point at an offset. -/
def Call.asker? (o : Int) : Call → Option ComponentMethod
  | .point m => if m.bodyStart = some o then some m else none
  | .add _ _ => none

/-- The methods that asked for the point at an offset, in order. -/
def askers (o : Int) (calls : List Call) : List ComponentMethod := calls.filterMap (Call.asker? o)

/-- The name that a call adds to the point at an offset. -/
def Call.name? (o : Int) : Call → Option String
  | .point _ => none
  | .add o' x => if o' = o then some x else none

/-- The names that were added to the point at an offset since it is there, in order and as often as they were added. -/
def taken (o : Int) (calls : List Call) : List String :=
  (calls.dropWhile (fun c => (c.asker? o).isNone)).filterMap (Call.name? o)

theorem after_concat (calls : List Call) (c : Call) : after (calls ++ [c]) = ((after calls).call c).1 := by
  simp [after]

theorem after_point {m : ComponentMethod} {o : Int} (hm : m.bodyStart = some o) (calls : List Call) :
    after (calls ++ [.point m]) = (after calls).openAt o m := by
  rw [after_concat, call, openFor, hm]

theorem starts_concat (calls : List Call) (c : Call) : starts (calls ++ [c]) = starts calls ++ c.start?.toList := by
  cases h : c.start? <;> simp [starts, h]

theorem askers_concat (o : Int) (calls : List Call) (c : Call) :
    askers o (calls ++ [c]) = askers o calls ++ (c.asker? o).toList := by
  cases h : c.asker? o <;> simp [askers, h]

theorem askers_eq_nil_iff {o : Int} {calls : List Call} : askers o calls = [] ↔ ∀ c ∈ calls, c.asker? o = none := by
  simp [askers]

theorem mem_starts_iff {o : Int} {calls : List Call} : o ∈ starts calls ↔ askers o calls ≠ [] := by
  have hcall : ∀ c : Call, c.start? = some o ↔ c.asker? o ≠ none := by
    intro c
    cases c <;> simp [Call.start?, Call.asker?]
  rw [starts, List.mem_filterMap, Ne, askers_eq_nil_iff]
  simp [hcall]

/-- Once a point is there it takes every name; before that it takes none. -/
theorem taken_concat (o : Int) (calls : List Call) (c : Call) :
    taken o (calls ++ [c]) = if askers o calls = [] then [] else taken o calls ++ (c.name? o).toList := by
  unfold taken
  rw [List.dropWhile_append]
  by_cases h : askers o calls = []
  · have hnone := askers_eq_nil_iff.1 h
    have hdrop : calls.dropWhile (fun c => (c.asker? o).isNone) = [] := by simpa using hnone
    rw [if_pos h, hdrop, List.isEmpty_nil, if_pos rfl]
    cases c with
    | point m => by_cases hm : m.bodyStart = some o <;> simp [Call.asker?, Call.name?, hm]
    | add o' x => simp [Call.asker?]
  · have hdrop : (calls.dropWhile (fun c => (c.asker? o).isNone)).isEmpty = false := by
      rw [List.isEmpty_eq_false_iff, Ne, List.dropWhile_eq_nil_iff]
      simpa [askers_eq_nil_iff] using h
    rw [if_neg h, hdrop, if_neg Bool.false_ne_true, List.filterMap_append]
    cases hname : c.name? o <;> simp [hname]

theorem taken_of_askers_nil {o : Int} {calls : List Call} (h : askers o calls = []) : taken o calls = [] := by
  have hdrop : calls.dropWhile (fun c => (c.asker? o).isNone) = [] := by simpa [askers_eq_nil_iff] using h
  rw [taken, hdrop, List.filterMap_nil]

/-! ## The points -/

/-- The point at an offset as the calls ask for it. -/
def pointBy (o : Int) (calls : List Call) : Option InsertionPoint :=
  (askers o calls).head?.map (fun m => ⟨o, (taken o calls).eraseDups, m.separator, m.lead, m.name⟩)

theorem pointBy_eq_none_iff {o : Int} {calls : List Call} : pointBy o calls = none ↔ askers o calls = [] := by
  simp [pointBy]

theorem pointBy_concat_point (o : Int) (calls : List Call) (m : ComponentMethod) : pointBy o (calls ++ [.point m]) =
    (pointBy o calls).or (if m.bodyStart = some o then some (.forMethod o m) else none) := by
  unfold pointBy
  rw [askers_concat, taken_concat]
  cases h : askers o calls with
  | nil => by_cases hm : m.bodyStart = some o <;> simp [Call.asker?, InsertionPoint.forMethod, hm]
  | cons m₀ ms => simp [Call.name?]

theorem pointBy_concat_add (o : Int) (calls : List Call) (o' : Int) (x : String) : pointBy o (calls ++ [.add o' x]) =
    (pointBy o calls).map (fun q => if o = o' then q.add x else q) := by
  unfold pointBy
  rw [askers_concat, taken_concat]
  cases h : askers o calls with
  | nil => simp [Call.asker?]
  | cons m₀ ms =>
    by_cases ho : o = o'
    · subst ho
      by_cases hx : x ∈ taken o calls <;>
        simp [Call.asker?, Call.name?, InsertionPoint.add, Alias.eraseDups_concat, hx]
    · simp [Call.asker?, Call.name?, ho, Ne.symm ho]

/-- **The point at an offset is the one that the calls so far ask for.** -/
theorem point?_after (calls : List Call) (o : Int) : (after calls).point? o = pointBy o calls := by
  induction calls using List.reverseRecOn with
  | nil => rfl
  | append_singleton calls c ih =>
    rw [after_concat]
    cases c with
    | point m =>
      rw [pointBy_concat_point, ← ih, call, openFor]
      cases hm : m.bodyStart with
      | none => simp
      | some o' =>
        by_cases ho : o = o'
        · subst ho; simp [point?_openAt]
        · simp [point?_openAt, ho, Ne.symm ho]
    | add o' x =>
      rw [pointBy_concat_add, ← ih, call]
      by_cases hthere : ((after calls).point? o').isSome = true
      · rw [if_pos hthere]
        exact point?_add ..
      · rw [if_neg hthere]
        by_cases ho : o = o'
        · subst ho
          simp only [Option.not_isSome_iff_eq_none] at hthere
          simp [hthere]
        · simp [ho]

theorem built_after (calls : List Call) : (after calls).Built := by
  induction calls using List.reverseRecOn with
  | nil => exact .empty
  | append_singleton calls c ih =>
    rw [after_concat]
    cases c with
    | point m =>
      rw [call]
      cases hm : (after calls).openFor m with
      | ok p => exact .opened ih hm
      | error e => exact ih
    | add o x =>
      rw [call]
      split
      · exact .named ih o x
      · exact ih

theorem offsets_openAt (p : Plan) (o : Int) (m : ComponentMethod) :
    (p.openAt o m).offsets = if o ∈ p.offsets then p.offsets else p.offsets ++ [o] := by
  simp only [openAt, mem_offsets_iff]
  split <;> simp [offsets, InsertionPoint.forMethod]

/-- The points stand in the order in which they were asked for first. -/
theorem offsets_after (calls : List Call) : (after calls).offsets = (starts calls).eraseDups := by
  induction calls using List.reverseRecOn with
  | nil => rfl
  | append_singleton calls c ih =>
    rw [after_concat, starts_concat]
    cases c with
    | point m =>
      rw [call, openFor, Call.start?]
      cases hm : m.bodyStart with
      | none => simpa using ih
      | some o => simp [offsets_openAt, Alias.eraseDups_concat, ih]
    | add o x =>
      rw [call]
      split
      · simpa [offsets_add, Call.start?] using ih
      · simpa [Call.start?] using ih

/-! ## The answers -/

theorem hasName_after {calls : List Call} {o : Int} {x : String} (h : askers o calls ≠ []) :
    (after calls).hasName o x = decide (x ∈ taken o calls) := by
  obtain ⟨m, ms, hm⟩ := List.exists_cons_of_ne_nil h
  simp [hasName, point?_after, pointBy, hm]

/-- **A name is new exactly if the point has not taken it before.** -/
theorem answerTo_add (before : List Call) (o : Int) (x : String) : answerTo before (.add o x) =
    if askers o before = [] then .refused .noSuchKey else .added (decide (x ∉ taken o before)) := by
  rw [answerTo, call, point?_after]
  by_cases h : askers o before = []
  · simp [h, pointBy]
  · obtain ⟨m, ms, hm⟩ := List.exists_cons_of_ne_nil h
    rw [if_neg h, hasName_after h]
    simp [pointBy, hm]

/-- What a method gets that asks for its point. -/
theorem call_point (before : List Call) (m : ComponentMethod) : (after before).call (.point m) =
    match m.bodyStart with
    | some o => (after (before ++ [.point m]), .point (pointBy o (before ++ [.point m])))
    | none => (after before, .refused (.bodiless m.name)) := by
  rw [call, openFor]
  cases hm : m.bodyStart with
  | none => rfl
  | some o => simp only [Option.bind_some, ← after_point hm, point?_after]

/-! ## Empty plans -/

theorem isEmpty_after_iff (calls : List Call) : (after calls).isEmpty = true ↔ ∀ o, taken o calls = [] := by
  rw [isEmpty, List.all_eq_true]
  constructor
  · intro hall o
    by_cases h : askers o calls = []
    · exact taken_of_askers_nil h
    · obtain ⟨m, ms, hm⟩ := List.exists_cons_of_ne_nil h
      have hpoint : (after calls).point? o = some ⟨o, (taken o calls).eraseDups, m.separator, m.lead, m.name⟩ := by
        rw [point?_after, pointBy, hm]
        rfl
      have hnone : (taken o calls).eraseDups = [] := List.isEmpty_iff.1 (hall _ (List.mem_of_find?_eq_some hpoint))
      refine List.eq_nil_iff_forall_not_mem.2 (fun x hx => ?_)
      rw [← List.mem_eraseDups, hnone] at hx
      cases hx
  · intro hnone q hq
    have hpoint := point?_of_mem (built_after calls).nodup hq
    rw [point?_after, pointBy, hnone] at hpoint
    obtain ⟨m, -, heq⟩ := Option.map_eq_some_iff.1 hpoint
    rw [← heq]
    rfl

/-- **A plan stays empty as long as no name is new.** -/
theorem isEmpty_after_concat (calls : List Call) (c : Call) :
    (after (calls ++ [c])).isEmpty = true ↔ (after calls).isEmpty = true ∧ answerTo calls c ≠ .added true := by
  rw [isEmpty_after_iff, isEmpty_after_iff]
  cases c with
  | point m =>
    have hsame : ∀ o, taken o (calls ++ [.point m]) = taken o calls := by
      intro o
      rw [taken_concat]
      split
      · next h => exact (taken_of_askers_nil h).symm
      · exact List.append_nil _
    have hanswer : answerTo calls (.point m) ≠ .added true := by
      rw [answerTo, call_point]
      cases m.bodyStart <;> simp
    simp [hsame, hanswer]
  | add o' x =>
    by_cases h : askers o' calls = []
    · have hsame : ∀ o, taken o (calls ++ [.add o' x]) = taken o calls := by
        intro o
        rw [taken_concat]
        by_cases ho : o' = o
        · subst ho
          rw [if_pos h, taken_of_askers_nil h]
        · split
          · next h => exact (taken_of_askers_nil h).symm
          · simp [Call.name?, ho]
      simp [hsame, answerTo_add, h]
    · constructor
      · intro hnone
        have hx := hnone o'
        rw [taken_concat, if_neg h] at hx
        simp [Call.name?] at hx
      · rintro ⟨hnone, hanswer⟩
        rw [answerTo_add, if_neg h, hnone o'] at hanswer
        exact absurd rfl hanswer

/-- **A plan is empty exactly if no name was ever new.** -/
theorem isEmpty_after (calls : List Call) : (after calls).isEmpty = true ↔
    ∀ before c, before ++ [c] <+: calls → answerTo before c ≠ .added true := by
  induction calls using List.reverseRecOn with
  | nil =>
    refine ⟨fun _ before c h => ?_, fun _ => rfl⟩
    simp at h
  | append_singleton calls c ih =>
    rw [isEmpty_after_concat, ih]
    constructor
    · rintro ⟨hbefore, hlast⟩ before c' h
      rcases List.prefix_concat_iff.1 h with heq | hprefix
      · obtain ⟨rfl, hc⟩ := List.append_inj' heq rfl
        rw [List.cons.inj hc |>.1]
        exact hlast
      · exact hbefore before c' hprefix
    · intro hall
      exact ⟨fun before c' h => hall before c' (h.trans (List.prefix_append _ _)), hall calls c (List.prefix_refl _)⟩

/-- **What calls make of a plan.**  There is one point for each body start that was asked for, under its own offset; the first
method that asked for it says how it is laid out, and its names are those that were added to it, each once in the order in
which they came.  The points are gone through from the last offset to the first.  The plan is empty exactly if no name was
ever new.  A method with a body gets its point; a method without one is refused, and the plan is left as it was.  A name
is told to be new exactly if its point has not been given it before. -/
theorem after_settled (calls : List Call) :
    (after calls).offsets = (starts calls).eraseDups ∧ (after calls).offsets.Nodup ∧
    (∀ o, (after calls).point? o =
      (askers o calls).head?.map (fun m => ⟨o, (taken o calls).eraseDups, m.separator, m.lead, m.name⟩)) ∧
    (after calls).descending.Perm (after calls).points ∧
    (after calls).descending.Pairwise (fun a b => b.offset < a.offset) ∧
    ((after calls).isEmpty = true ↔ ∀ before c, before ++ [c] <+: calls → answerTo before c ≠ .added true) ∧
    (∀ m o, m.bodyStart = some o → ∃ q, (after (calls ++ [.point m])).point? o = some q ∧
      answerTo calls (.point m) = .point (some q)) ∧
    (∀ m, m.bodyStart = none → (after calls).call (.point m) = (after calls, .refused (.bodiless m.name))) ∧
    ∀ o x, o ∈ starts calls → answerTo calls (.add o x) = .added (decide (x ∉ taken o calls)) := by
  have hnodup := (built_after calls).nodup
  refine ⟨offsets_after calls, hnodup, point?_after calls, descending_perm _, descending_pairwise_lt hnodup,
    isEmpty_after calls, ?_, ?_, ?_⟩
  · intro m o hm
    have hasked : pointBy o (calls ++ [.point m]) ≠ none := by
      rw [Ne, pointBy_eq_none_iff, askers_concat]
      simp [Call.asker?, hm]
    obtain ⟨q, hq⟩ := Option.ne_none_iff_exists'.1 hasked
    refine ⟨q, (point?_after _ o).trans hq, ?_⟩
    rw [answerTo, call_point, hm]
    simp only [hq]
  · intro m hm
    rw [call_point, hm]
  · intro o x ho
    rw [answerTo_add, if_neg (mem_starts_iff.1 ho)]

/-- **Collecting makes calls.**  The plan of a collection is one that calls make. -/
theorem exists_after_of_collect {rule : Alias.Rule} {file : String} {methods : List (ComponentMethod × List TagReference)}
    {c : Alias.Collection} (h : Alias.collect rule file methods = .ok c) : ∃ calls, c.plan = after calls := by
  rw [Alias.collect_eq_foldlM] at h
  generalize Alias.steps methods = ss at h
  induction ss using List.reverseRecOn generalizing c with
  | nil =>
    cases h
    exact ⟨[], rfl⟩
  | append_singleton ss s ih =>
    obtain ⟨c₁, hbefore, hstep⟩ := foldlM_concat_ok h
    obtain ⟨calls, hcalls⟩ := ih hbefore
    rcases Alias.collectStep_ok hstep with ⟨-, rfl⟩ | ⟨-, o, htarget, hplan⟩
    · exact ⟨calls, hcalls⟩
    · have hstart : s.1.bodyStart = some o := by
        unfold Alias.target? at htarget
        split at htarget
        · exact htarget
        · cases htarget
      have hasked : askers o (calls ++ [.point s.1]) ≠ [] := by
        rw [askers_concat]
        simp [Call.asker?, hstart]
      have hthere : ((after (calls ++ [.point s.1])).point? o).isSome = true := by
        rwa [point?_after, Option.isSome_iff_ne_none, Ne, pointBy_eq_none_iff]
      refine ⟨calls ++ [.point s.1] ++ [.add o s.2.name], ?_⟩
      rw [hplan, hcalls, after_concat, call, if_pos hthere, after_point hstart]

end Plan
end TagAlias
