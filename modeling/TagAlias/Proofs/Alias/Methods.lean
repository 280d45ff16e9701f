import TagAlias.Proofs.Alias.Collected
import TagAlias.Proofs.Component.Places
/-!
# The component methods of a tree and what collecting finds in them

The methods of a survey without a fault are those found at the places of the tree (`mem_methods_iff`), and the references of
a method are those that the nodes it owns make (`MethodAt.mem_refs_iff`).
-/
namespace TagAlias
namespace Alias

section

variable (rule : Rule) (src : Bytes) (scopes : Scopes) (root : Node)

/-- A component method of a tree, found at its place, with its references. -/
structure MethodAt (p : Place) (m : ComponentMethod) (refs : List TagReference) : Prop where
  place : p ∈ root.places none []
  here : Survey.methodAt src rule.stem scopes.isBoundAt p = some (Survey.found (m, refs))

/-- A component method some reference of which needs an alias; the plan gets a point for it. -/
def Receives (p : Place) (m : ComponentMethod) : Prop :=
  ∃ refs, MethodAt rule src scopes root p m refs ∧ ∃ r ∈ refs, rule.qualifies r = true

end

variable {rule : Rule} {src : Bytes} {scopes : Scopes} {root : Node}

theorem MethodAt.found {p : Place} {m : ComponentMethod} {refs : List TagReference} (h : MethodAt rule src scopes root p m refs) :
    (∃ name, Component.methodName? src rule.stem p.parent p.node = .ok (some name) ∧
      Component.method src name p.node = .ok m) ∧
    Component.references src rule.stem scopes.isBoundAt p.path p.node = refs.map .ok := by
  have hhere := h.here
  unfold Survey.methodAt at hhere
  split at hhere
  · cases hhere
  · cases hhere
  · next name hname =>
    rw [Option.some.injEq] at hhere
    cases hm : Component.method src name p.node with
    | error e => rw [hm] at hhere; cases hhere
    | ok m' =>
      rw [hm] at hhere
      obtain ⟨hmethod, hrefs⟩ := Prod.mk.inj (Except.ok.inj hhere)
      exact ⟨⟨name, hname, by rw [hm, hmethod]⟩, hrefs⟩

theorem MethodAt.mem_refs_iff {p : Place} {m : ComponentMethod} {refs : List TagReference}
    (h : MethodAt rule src scopes root p m refs) (r : TagReference) :
    r ∈ refs ↔ ∃ e ∈ Component.owned src rule.stem p.path p.node,
      .ok r ∈ Component.tagReferences src scopes.isBoundAt e.1 e.2 := by
  rw [← Component.ok_mem_references_iff, h.found.2]
  simp

theorem bound_of_mem_tagReferences {binds : List Nat → String → Bool} {path : List Nat} {n : Node} {r : TagReference}
    (h : .ok r ∈ Component.tagReferences src binds path n) : r.bound = binds path r.name := by
  unfold Component.tagReferences at h
  split at h
  · cases h
  · next name root' _ =>
    rw [List.mem_singleton] at h
    cases hat : Position.ofOffset src root'.start with
    | error f => rw [hat] at h; cases h
    | ok at_ =>
      cases htext : root'.text src with
      | error f => rw [hat, htext] at h; cases h
      | ok text =>
        rw [hat, htext] at h
        rw [Except.ok.inj h]

theorem qualifies_iff {r : TagReference} : rule.qualifies r = true ↔ rule.asks r = true ∧ r.bound = false := by
  simp [Rule.qualifies]

theorem ne_empty_of_qualifies {r : TagReference} (h : rule.qualifies r = true) : r.name ≠ "" := by
  intro he
  rw [qualifies_iff, Rule.asks, he] at h
  cases h.1

theorem mem_methods_iff (hscopes : Scopes.ofTree src root = .ok scopes)
    (hfault : (Survey.ofTree src rule.stem rule.asks root).fault = none) (m : ComponentMethod) (refs : List TagReference) :
    (m, refs) ∈ (Survey.ofTree src rule.stem rule.asks root).methods ↔ ∃ p, MethodAt rule src scopes root p m refs := by
  have hall : (root.places none []).filterMap (Survey.methodAt src rule.stem scopes.isBoundAt) =
      (Survey.ofTree src rule.stem rule.asks root).methods.map Survey.found := by
    rw [Survey.ofTree_eq hscopes] at hfault ⊢
    exact Survey.ofResults_methods _ hfault
  constructor
  · intro h
    have hmem := List.mem_map_of_mem (f := Survey.found) h
    rw [← hall] at hmem
    obtain ⟨p, hp, hhere⟩ := List.mem_filterMap.1 hmem
    exact ⟨p, hp, hhere⟩
  · rintro ⟨p, hp, hhere⟩
    have hmem := List.mem_filterMap.2 ⟨p, hp, hhere⟩
    rw [hall] at hmem
    obtain ⟨a, ha, heq⟩ := List.mem_map.1 hmem
    exact Survey.found_inj heq ▸ ha

/-- Where collecting succeeds, a reference that needs an alias has its name where its method takes aliases. -/
theorem hasName_of_qualifies (hscopes : Scopes.ofTree src root = .ok scopes) {file : String} {c : Collection}
    (hc : collectSurvey rule file (Survey.ofTree src rule.stem rule.asks root) = .ok c) {p : Place} {m : ComponentMethod}
    {refs : List TagReference} (hm : MethodAt rule src scopes root p m refs) {r : TagReference} (hr : r ∈ refs)
    (hq : rule.qualifies r = true) : ∃ o, target? m = some o ∧ c.plan.hasName o r.name = true := by
  obtain ⟨hok, hfault⟩ := collectSurvey_ok hc
  have hstep : (m, r) ∈ steps (Survey.ofTree src rule.stem rule.asks root).methods :=
    mem_steps_iff.2 ⟨refs, (mem_methods_iff hscopes hfault m refs).2 ⟨p, hm⟩, hr⟩
  obtain ⟨o, ho⟩ := target_collect hok hstep hq
  exact ⟨o, ho, (hasName_collect_iff hok o r.name).2 ⟨(m, r), hstep, hq, ho, rfl⟩⟩

/-- What stands at an offset of the plan is asked for by a reference of a method that takes its aliases there. -/
theorem method_of_hasName (hscopes : Scopes.ofTree src root = .ok scopes) {file : String} {c : Collection}
    (hc : collectSurvey rule file (Survey.ofTree src rule.stem rule.asks root) = .ok c) {o : Int} {x : String}
    (h : c.plan.hasName o x = true) : ∃ p m refs, MethodAt rule src scopes root p m refs ∧ target? m = some o ∧
      ∃ r ∈ refs, rule.qualifies r = true ∧ r.name = x := by
  obtain ⟨hok, hfault⟩ := collectSurvey_ok hc
  obtain ⟨⟨m, r⟩, hs, hq, ho, hx⟩ := (hasName_collect_iff hok o x).1 h
  obtain ⟨refs, hmem, hr⟩ := mem_steps_iff.1 hs
  obtain ⟨p, hm⟩ := (mem_methods_iff hscopes hfault m refs).1 hmem
  exact ⟨p, m, refs, hm, ho, r, hr, hq, hx⟩

end Alias
end TagAlias
