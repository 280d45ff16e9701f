import TagAlias.Alias.Transform
import TagAlias.Grammar.Program
import TagAlias.Proofs.Alias.Planned
/-!
# What is remarked

A name that is planned at an offset is remarked on once if the first tag that asks for it there is a qualified one, and not
at all otherwise (`remarks_collected`).  Tags that come later make no difference: where a plain tag asks for the name first,
a qualified one behind it goes unmentioned although its root is aliased.
-/
namespace TagAlias

namespace Plan

/-- The names of a plan, each with the offset of its point. -/
def entries (p : Plan) : List (Int × String) := p.points.flatMap (fun q => q.names.map (q.offset, ·))

theorem mem_entries_iff {p : Plan} (hnodup : p.offsets.Nodup) {o : Int} {x : String} :
    (o, x) ∈ p.entries ↔ p.hasName o x = true := by
  simp only [entries, List.mem_flatMap, List.mem_map, Prod.mk.injEq]
  constructor
  · rintro ⟨q, hq, x', hx, rfl, rfl⟩
    rw [hasName, point?_of_mem hnodup hq]
    simpa using hx
  · intro h
    obtain ⟨q, hq, hx⟩ := exists_of_hasName h
    exact ⟨q, List.mem_of_find?_eq_some hq, x, hx, offset_of_point? hq, rfl⟩

theorem hasName_openAt (p : Plan) (o : Int) (m : ComponentMethod) (o' : Int) (x : String) :
    (p.openAt o m).hasName o' x = p.hasName o' x := by
  unfold hasName
  rw [point?_openAt]
  cases p.point? o' with
  | some q => rfl
  | none =>
    by_cases ho : o' = o
    · rw [if_pos ho]; rfl
    · rw [if_neg ho]; rfl

/-- A name that is there is not added again. -/
theorem add_of_hasName {p : Plan} (hnodup : p.offsets.Nodup) {o : Int} {x : String} (h : p.hasName o x = true) :
    p.add o x = p := by
  obtain ⟨q₀, hq₀, hx⟩ := exists_of_hasName h
  have hsame : ∀ q ∈ p.points, (if q.offset == o then q.add x else q) = id q := by
    intro q hq
    by_cases ho : q.offset = o
    · have hfound := point?_of_mem hnodup hq
      rw [ho, hq₀, Option.some.injEq] at hfound
      subst hfound
      have hin : q₀.names.contains x = true := List.contains_iff_mem.2 hx
      rw [if_pos (beq_iff_eq.2 ho), InsertionPoint.add, if_pos hin]; rfl
    · rw [beq_false_of_ne ho]; rfl
  rw [add, List.map_congr_left hsame, List.map_id]

theorem openAt_of_hasName {p : Plan} {o : Int} {x : String} (h : p.hasName o x = true) (m : ComponentMethod) :
    p.openAt o m = p := by
  obtain ⟨q, hq, -⟩ := exists_of_hasName h
  rw [openAt, hq]; rfl

/-- The entries of points at another offset stay. -/
theorem map_add_of_not_mem {o : Int} {x : String} : ∀ {ps : List InsertionPoint}, o ∉ ps.map (·.offset) →
    ps.map (fun q => if q.offset == o then q.add x else q) = ps
  | [], _ => rfl
  | q :: ps, h => by
    rw [List.map_cons, List.mem_cons, not_or] at h
    rw [List.map_cons, beq_false_of_ne (Ne.symm h.1), map_add_of_not_mem h.2]; rfl

/-- **A new name at an offset makes one new entry.** -/
theorem entries_add {o : Int} {x : String} : ∀ {ps : List InsertionPoint}, (ps.map (·.offset)).Nodup →
    o ∈ ps.map (·.offset) → (∀ q ∈ ps, q.offset = o → x ∉ q.names) →
    ((⟨ps⟩ : Plan).add o x).entries.Perm ((⟨ps⟩ : Plan).entries ++ [(o, x)])
  | q :: ps, hnodup, ho, hnew => by
    rw [List.map_cons, List.nodup_cons] at hnodup
    rw [List.map_cons, List.mem_cons] at ho
    simp only [add, entries, List.map_cons, List.flatMap_cons]
    by_cases hq : q.offset = o
    · have hx : ¬ q.names.contains x = true := fun h => hnew q List.mem_cons_self hq (List.contains_iff_mem.1 h)
      rw [if_pos (beq_iff_eq.2 hq), map_add_of_not_mem (hq ▸ hnodup.1), InsertionPoint.add, if_neg hx, List.map_append, hq,
        List.append_assoc, List.append_assoc]
      exact List.perm_append_comm.append_left _
    · have ih := entries_add hnodup.2 (ho.resolve_left (Ne.symm hq)) (fun q' hq' => hnew q' (List.mem_cons_of_mem _ hq'))
      rw [beq_false_of_ne hq, List.append_assoc]
      exact ih.append_left _

theorem entries_add_openAt {p : Plan} (hnodup : p.offsets.Nodup) {o : Int} {x : String} (h : p.hasName o x = false)
    (m : ComponentMethod) : ((p.openAt o m).add o x).entries.Perm (p.entries ++ [(o, x)]) := by
  have hopened := nodup_offsets_openAt hnodup o m
  have hin : o ∈ (p.openAt o m).offsets := by
    rw [mem_offsets_iff, point?_openAt, if_pos rfl]
    cases p.point? o <;> rfl
  have hnew : ∀ q ∈ (p.openAt o m).points, q.offset = o → x ∉ q.names := by
    intro q hq ho hx
    have hname := (mem_entries_iff hopened (o := o) (x := x)).1
      (List.mem_flatMap.2 ⟨q, hq, List.mem_map.2 ⟨x, hx, by rw [ho]⟩⟩)
    rw [hasName_openAt, h] at hname
    cases hname
  have hentries : (p.openAt o m).entries = p.entries := by
    unfold openAt
    split
    · rfl
    · rw [entries, List.flatMap_append]
      exact List.append_nil _
  rw [← hentries]
  exact entries_add hopened hin hnew

end Plan

namespace Alias

/-- The references that ask for a name at an offset, each with its method, in order. -/
def usesAt (rule : Rule) (ss : List (ComponentMethod × TagReference)) (e : Int × String) :
    List (ComponentMethod × TagReference) :=
  (stepsAt rule e.1 ss).filter (·.2.name == e.2)

/-- The remark on a name at an offset: the first tag that asks for it decides whether there is one. -/
def remarkAt (rule : Rule) (ss : List (ComponentMethod × TagReference)) (e : Int × String) : Option Diagnostic :=
  (usesAt rule ss e).head?.bind (fun s => if s.2.isMemberRoot then some (memberRootDiagnostic rule.stem s.1 s.2) else none)

variable {rule : Rule} {file : String}

theorem mem_usesAt_iff {ss : List (ComponentMethod × TagReference)} {o : Int} {x : String} {s : ComponentMethod × TagReference} :
    s ∈ usesAt rule ss (o, x) ↔ s ∈ ss ∧ Asked rule s o x := by
  simp only [usesAt, stepsAt, List.mem_filter, Bool.and_eq_true, beq_iff_eq, Asked, and_assoc]

theorem usesAt_eq_nil_iff {ss : List (ComponentMethod × TagReference)} {o : Int} {x : String} :
    usesAt rule ss (o, x) = [] ↔ ¬ ∃ s ∈ ss, Asked rule s o x := by
  simp only [List.eq_nil_iff_forall_not_mem, mem_usesAt_iff, not_and, not_exists]

theorem usesAt_concat (ss : List (ComponentMethod × TagReference)) (s : ComponentMethod × TagReference) (o : Int) (x : String) :
    usesAt rule (ss ++ [s]) (o, x) = usesAt rule ss (o, x) ++ usesAt rule [s] (o, x) := by
  simp only [usesAt, stepsAt, List.filter_append]

theorem usesAt_singleton_of_asked {s : ComponentMethod × TagReference} {o : Int} {x : String} (h : Asked rule s o x) :
    usesAt rule [s] (o, x) = [s] := by
  obtain ⟨hq, ho, hx⟩ := h
  simp [usesAt, stepsAt, hq, ho, hx]

/-- A reference changes no remark on a name that was asked for before. -/
theorem remarkAt_concat {ss : List (ComponentMethod × TagReference)} {s : ComponentMethod × TagReference} {o : Int} {x : String}
    (h : usesAt rule ss (o, x) ≠ [] ∨ ¬ Asked rule s o x) : remarkAt rule (ss ++ [s]) (o, x) = remarkAt rule ss (o, x) := by
  rw [remarkAt, usesAt_concat]
  rcases h with h | h
  · rw [List.head?_append_of_ne_nil _ h]; rfl
  · have hnone : usesAt rule [s] (o, x) = [] := usesAt_eq_nil_iff.2 (by
      rintro ⟨s', hs', hasked⟩
      exact h (List.mem_singleton.1 hs' ▸ hasked))
    rw [hnone, List.append_nil]; rfl

/-- The remark that a step makes. -/
theorem diagnostics_collectStep {c c' : Collection} {s : ComponentMethod × TagReference} {o : Int}
    (h : collectStep rule file c s = .ok c') (hq : rule.qualifies s.2 = true) (ho : target? s.1 = some o) :
    c'.diagnostics = c.diagnostics ++
      if !c.plan.hasName o s.2.name && s.2.isMemberRoot then [memberRootDiagnostic rule.stem s.1 s.2] else [] := by
  simp only [collectStep, collectReference, hq, ho, Plan.hasName_openAt, Bool.not_true, Bool.false_eq_true, if_false] at h
  rw [← Except.ok.inj h]

/-- **The remarks are those on the entries of the plan.** -/
theorem diagnostics_perm (ss : List (ComponentMethod × TagReference)) : ∀ c,
    ss.foldlM (collectStep rule file) ⟨.empty, []⟩ = .ok c →
    c.diagnostics.Perm (c.plan.entries.filterMap (remarkAt rule ss)) := by
  induction ss using List.reverseRecOn with
  | nil =>
    intro c h
    cases h
    exact .nil
  | append_singleton ss s ih =>
    intro c h
    obtain ⟨c₁, hbefore, hstep⟩ := foldlM_concat_ok h
    have hnodup := offsets_nodup_foldlM rule file ss _ c₁ hbefore (by decide)
    have hknown := fun o x => hasName_foldlM rule file o x ss _ c₁ hbefore
    simp only [show ∀ o x, Plan.empty.hasName o x = false from fun _ _ => rfl, Bool.false_eq_true, false_or] at hknown
    -- The entries that are there have been asked for already, so their remarks stay.
    have hstay : c₁.plan.entries.filterMap (remarkAt rule (ss ++ [s])) = c₁.plan.entries.filterMap (remarkAt rule ss) := by
      refine List.filterMap_congr (fun e he => remarkAt_concat (.inl ?_))
      rw [Ne, usesAt_eq_nil_iff, not_not, ← hknown, ← Plan.mem_entries_iff hnodup]
      exact he
    rcases collectStep_ok hstep with ⟨-, rfl⟩ | ⟨hq, o, ho, hplan⟩
    · rw [hstay]
      exact ih c hbefore
    · rw [diagnostics_collectStep hstep hq ho, hplan]
      cases hname : c₁.plan.hasName o s.2.name with
      | true =>
        rw [Plan.openAt_of_hasName hname, Plan.add_of_hasName hnodup hname, hstay, Bool.not_true, Bool.false_and,
          if_neg Bool.false_ne_true, List.append_nil]
        exact ih c₁ hbefore
      | false =>
        have hfirst : usesAt rule (ss ++ [s]) (o, s.2.name) = [s] := by
          rw [usesAt_concat, usesAt_singleton_of_asked ⟨hq, ho, rfl⟩, usesAt_eq_nil_iff.2, List.nil_append]
          rw [← hknown, hname]
          exact Bool.false_ne_true
        have hnew : [(o, s.2.name)].filterMap (remarkAt rule (ss ++ [s])) =
            if s.2.isMemberRoot then [memberRootDiagnostic rule.stem s.1 s.2] else [] := by
          cases hroot : s.2.isMemberRoot <;> simp [remarkAt, hfirst, hroot]
        refine .trans ?_ ((Plan.entries_add_openAt hnodup hname s.1).filterMap _).symm
        rw [List.filterMap_append, hstay, hnew, Bool.not_false, Bool.true_and]
        exact (ih c₁ hbefore).append_right _

theorem nodup_eraseDups (xs : List String) : xs.eraseDups.Nodup := by
  induction xs using List.reverseRecOn with
  | nil => exact .nil
  | append_singleton xs x ih =>
    rw [eraseDups_concat]
    by_cases h : x ∈ xs
    · rw [if_pos h]
      exact ih
    · rw [if_neg h, List.nodup_append]
      refine ⟨ih, List.nodup_singleton x, ?_⟩
      intro a ha b hb heq
      rw [List.mem_singleton.1 hb] at heq
      exact h (List.mem_eraseDups.1 (heq ▸ ha))

theorem nodup_entries {methods : List (ComponentMethod × List TagReference)} {c : Collection}
    (h : collect rule file methods = .ok c) : c.plan.entries.Nodup := by
  rw [Plan.entries, List.nodup_flatMap]
  constructor
  · intro q hq
    obtain ⟨m, -, heq⟩ := Option.map_eq_some_iff.1 (pointAt_of_mem h hq)
    have hnames : q.names.Nodup := by
      rw [← congrArg InsertionPoint.names heq]
      exact nodup_eraseDups _
    exact hnames.map (fun _ _ he => (Prod.mk.inj he).2)
  · have hpairwise : c.plan.points.Pairwise (fun a b => a.offset ≠ b.offset) := List.pairwise_map.1 (offsets_nodup h)
    refine hpairwise.imp (fun {a b} hne e ha hb => ?_)
    obtain ⟨x, -, rfl⟩ := List.mem_map.1 ha
    obtain ⟨y, -, heq⟩ := List.mem_map.1 hb
    exact hne (Prod.mk.inj heq).1.symm

/-- **What is remarked where collecting succeeds.**  There is one entry for each name of each point, and each entry is remarked
on once or not at all.  It is remarked on exactly if the first tag that asks for the name there is a qualified one; the remark
tells of that tag.  So a remark is there for a name with a qualified tag, and only then, exactly if no plain tag asks for it
before the first qualified one does. -/
theorem remarks_collected {methods : List (ComponentMethod × List TagReference)} {c : Collection}
    (h : collect rule file methods = .ok c) :
    c.plan.entries.Nodup ∧
    c.diagnostics.Perm (c.plan.entries.filterMap (remarkAt rule (steps methods))) ∧
    ∀ e ∈ c.plan.entries, ∃ m r rest, usesAt rule (steps methods) e = (m, r) :: rest ∧
      (∀ d, remarkAt rule (steps methods) e = some d ↔ r.isMemberRoot = true ∧ d = memberRootDiagnostic rule.stem m r) ∧
      (((remarkAt rule (steps methods) e).isSome = true ↔
          ∃ s ∈ usesAt rule (steps methods) e, s.2.isMemberRoot = true) ↔
        r.isMemberRoot = true ∨ ∀ s ∈ rest, s.2.isMemberRoot = false) := by
  refine ⟨nodup_entries h, diagnostics_perm _ c (by rw [← collect_eq_foldlM]; exact h), ?_⟩
  rintro ⟨o, x⟩ he
  have hasked := (hasName_collect_iff h o x).1 ((Plan.mem_entries_iff (offsets_nodup h)).1 he)
  cases huses : usesAt rule (steps methods) (o, x) with
  | nil => exact absurd hasked (usesAt_eq_nil_iff.1 huses)
  | cons s rest =>
    have hremark : remarkAt rule (steps methods) (o, x) =
        if s.2.isMemberRoot then some (memberRootDiagnostic rule.stem s.1 s.2) else none := by rw [remarkAt, huses]; rfl
    refine ⟨s.1, s.2, rest, rfl, ?_, ?_⟩
    · intro d
      rw [hremark]
      cases s.2.isMemberRoot <;> simp [eq_comm]
    · rw [hremark]
      cases hroot : s.2.isMemberRoot <;> simp [hroot]

/-! ## A plain tag before a qualified one -/

/-- The tags of `<Ui><Ui.Button/></Ui>` in a method. -/
def plainFirst : List (ComponentMethod × List TagReference) :=
  [(⟨"render", some 21, true, "", " ", 1, 11⟩, [⟨"Ui", false, 1, 30, false⟩, ⟨"Ui", true, 1, 34, false⟩])]

/-- The root of the qualified tag is aliased, and nothing is remarked. -/
theorem remarks_plainFirst :
    collect ⟨"render", .aliased⟩ "" plainFirst = .ok ⟨⟨[⟨21, ["Ui"], " ", "", "render"⟩]⟩, []⟩ ∧
    (((⟨⟨"render", .aliased⟩, []⟩ : Transformer).transform Grammar.parse
      "class A { render() { return <Ui><Ui.Button/></Ui>; } }" "" none).toOption.map (fun r => (r.code, r.diagnostics))) =
      some ("class A { render() { const Ui = this.renderUi; return <Ui><Ui.Button/></Ui>; } }", []) ∧
    ¬ ((remarkAt ⟨"render", .aliased⟩ (steps plainFirst) (21, "Ui")).isSome = true ↔
      ∃ s ∈ usesAt ⟨"render", .aliased⟩ (steps plainFirst) (21, "Ui"), s.2.isMemberRoot = true) := by
  have hcollect : collect ⟨"render", .aliased⟩ "" plainFirst = .ok ⟨⟨[⟨21, ["Ui"], " ", "", "render"⟩]⟩, []⟩ :=
    eq_ok_of_toOption (by decide +kernel)
  obtain ⟨-, -, hentries⟩ := remarks_collected hcollect
  obtain ⟨m, r, rest, huses, -, hkept⟩ := hentries (21, "Ui") (by decide +kernel)
  have hplain : usesAt ⟨"render", .aliased⟩ (steps plainFirst) (21, "Ui") =
      (⟨"render", some 21, true, "", " ", 1, 11⟩, ⟨"Ui", false, 1, 30, false⟩) ::
        [(⟨"render", some 21, true, "", " ", 1, 11⟩, ⟨"Ui", true, 1, 34, false⟩)] := by decide +kernel
  obtain ⟨hfirst, hrest⟩ := List.cons.inj (hplain.symm.trans huses)
  refine ⟨hcollect, by decide +kernel, ?_⟩
  rw [hkept, ← hrest, ← (Prod.mk.inj hfirst).2]
  decide

end Alias
end TagAlias
