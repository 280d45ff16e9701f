import TagAlias.Proofs.Alias.Methods
import TagAlias.Proofs.Scope.Frames
import TagAlias.Proofs.Scope.Reads
/-!
# Planned aliases hide nothing and are hidden by nothing

A tag needs an alias only if its name is bound in no scope around it, so the name is bound in none around its method
either (`unbound_of_aliased`).  To declare all planned names on the scopes of their methods therefore leaves every binding
as it was, gives every tag that needs one its own method's binding, and is not noticed outside the methods
(`declareAll_hygienic`).
-/
namespace TagAlias
namespace Alias

section

variable (rule : Rule) (src : Bytes) (scopes : Scopes) (root : Node)

/-- The name stands in the plan's point of the component method at the path. -/
def Aliased (plan : Plan) (path : List Nat) (name : String) : Prop :=
  ∃ p m, Receives rule src scopes root p m ∧ p.path = path ∧ ∃ o, target? m = some o ∧ plan.hasName o name = true

/-- Every component method that gets a point is a method with its own scope, and no two have their bodies start at the same
offset. -/
structure Separate : Prop where
  definition : ∀ p m, Receives rule src scopes root p m → p.node.kind = "method_definition"
  distinct : ∀ p m p' m', Receives rule src scopes root p m → Receives rule src scopes root p' m' →
    m.bodyStart = m'.bodyStart → p.path = p'.path

end

variable {rule : Rule} {src : Bytes} {scopes : Scopes} {root : Node}

/-! ## Aliased names -/

section

variable {file : String} {c : Collection} (hscopes : Scopes.ofTree src root = .ok scopes)
  (hc : collectSurvey rule file (Survey.ofTree src rule.stem rule.asks root) = .ok c)

include hscopes hc

theorem aliased_of_mem_refs {p : Place} {m : ComponentMethod} {refs : List TagReference}
    (hm : MethodAt rule src scopes root p m refs) {r : TagReference} (hr : r ∈ refs) (hq : rule.qualifies r = true) :
    Aliased rule src scopes root c.plan p.path r.name := by
  obtain ⟨o, ho, hname⟩ := hasName_of_qualifies hscopes hc hm hr hq
  exact ⟨p, m, ⟨refs, hm, r, hr, hq⟩, rfl, o, ho, hname⟩

variable (hsep : Separate rule src scopes root)

include hsep

/-- An aliased name is the name of a reference of the method that needs an alias. -/
theorem ref_of_aliased {path : List Nat} {x : String} (h : Aliased rule src scopes root c.plan path x) :
    ∃ p m refs, MethodAt rule src scopes root p m refs ∧ p.path = path ∧
      ∃ r ∈ refs, rule.qualifies r = true ∧ r.name = x := by
  obtain ⟨p, m, hrec, hpath, o, ho, hname⟩ := h
  obtain ⟨p', m', refs, hm', ho', r, hr, hq, hx⟩ := method_of_hasName hscopes hc hname
  have hstart : ∀ {m : ComponentMethod}, target? m = some o → m.bodyStart = some o := fun {m} h => by
    unfold target? at h
    split at h
    · exact h
    · cases h
  -- Two methods of one point are one, since no two bodies start together.
  have hpaths := hsep.distinct p m p' m' hrec ⟨refs, hm', r, hr, hq⟩ ((hstart ho).trans (hstart ho').symm)
  exact ⟨p', m', refs, hm', hpaths.symm.trans hpath, r, hr, hq, hx⟩

theorem name_ne_empty_of_aliased {path : List Nat} {x : String} (h : Aliased rule src scopes root c.plan path x) : x ≠ "" := by
  obtain ⟨p, m, refs, -, -, r, -, hq, rfl⟩ := ref_of_aliased hscopes hc hsep h
  exact ne_empty_of_qualifies hq

/-- **An aliased name is bound in no scope around its method.** -/
theorem unbound_of_aliased {path : List Nat} {x : String} (h : Aliased rule src scopes root c.plan path x) :
    ∀ f ∈ scopes.framesAt path, f.2.find? x = none := by
  obtain ⟨p, m, refs, hm, rfl, r, hr, hq, rfl⟩ := ref_of_aliased hscopes hc hsep h
  obtain ⟨e, he, hre⟩ := (hm.mem_refs_iff r).1 hr
  have hbound : scopes.isBoundAt e.1 r.name = false := by
    rw [← bound_of_mem_tagReferences hre]; exact (qualifies_iff.1 hq).2
  obtain ⟨rel, hrel, -⟩ := Component.owned_spec src rule.stem p.parent p.path p.node e he
  obtain ⟨inner, heq, -⟩ := scopes.framesAt_append p.path rel
  rw [hrel, scopes.isBoundAt_eq_false_iff, heq] at hbound
  exact fun f hf => hbound f (List.mem_append_right _ hf)

/-! ## Declaring the aliased names -/

variable {declared : Additions} (hdeclared : ∀ path x, (path, x) ∈ declared ↔ Aliased rule src scopes root c.plan path x)

include hdeclared

/-- What a name means after the declarations: every scope knows what it knew and the names aliased on it. -/
theorem resolve_declareAll (path : List Nat) (x : String) :
    (scopes.declareAll "const" declared).resolve path x = (scopes.framesAt path).findSome? (fun f =>
      ((f.2.find? x).or (if declared.any (fun a => f.1 == some a.1 && x == a.2) then some "const" else none)).map (f.1, ·)) := by
  rw [Scopes.resolve, Scopes.framesAt_declareAll, List.findSome?_map]
  refine congrArg (fun g => List.findSome? g (scopes.framesAt path)) (funext fun f => ?_)
  simp only [Function.comp_apply]
  rw [Scopes.find?_foldl_declareOn "const" x declared f (fun a ha =>
    name_ne_empty_of_aliased hscopes hc hsep ((hdeclared a.1 a.2).1 ha)), Scopes.foldl_declareOn_fst]

omit hscopes hc hsep in
theorem any_declared_iff (f : Address × Scope) (x : String) :
    declared.any (fun a => f.1 == some a.1 && x == a.2) = true ↔
      ∃ q, f.1 = some q ∧ Aliased rule src scopes root c.plan q x := by
  simp only [List.any_eq_true, Bool.and_eq_true, beq_iff_eq, Prod.exists]
  constructor
  · rintro ⟨q, y, hmem, hq, rfl⟩; exact ⟨q, hq, (hdeclared q x).1 hmem⟩
  · rintro ⟨q, hq, hal⟩; exact ⟨q, x, (hdeclared q x).2 hal, hq, rfl⟩

/-- **What was bound is bound as before**: an alias of the name further in would have been bound where it is declared. -/
theorem resolve_of_resolve {path : List Nat} {x : String} {b : Address × String} (h : scopes.resolve path x = some b) :
    (scopes.declareAll "const" declared).resolve path x = some b := by
  rw [resolve_declareAll hscopes hc hsep hdeclared]
  obtain ⟨pre, f, post, hframes, hf, hpre⟩ := List.findSome?_eq_some_iff.1 h
  rw [hframes, List.findSome?_append, List.findSome?_eq_none_iff.2, Option.none_or, List.findSome?_cons]
  · cases hk : f.2.find? x with
    | none => rw [hk] at hf; cases hf
    | some k => rw [hk] at hf; simpa using hf
  · intro g hg
    have hnone : g.2.find? x = none := by simpa using hpre g hg
    rw [hnone, Option.none_or, if_neg, Option.map_none]
    rw [any_declared_iff hdeclared]
    rintro ⟨q, hq, hal⟩
    have hmem : g ∈ scopes.framesAt path := by rw [hframes]; exact List.mem_append_left _ hg
    obtain ⟨rel, rfl⟩ := Scopes.prefix_of_mem_framesAt hmem hq
    obtain ⟨inner, heq, hinner⟩ := scopes.framesAt_append q rel
    have hfound : f ∈ scopes.framesAt q := by
      rw [heq] at hframes
      rcases List.append_eq_append_iff.1 hframes with ⟨mid, rfl, hq'⟩ | ⟨mid, rfl, -⟩
      · rw [hq']; exact List.mem_append_right _ List.mem_cons_self
      · obtain ⟨q', hq', -, hne⟩ := hinner g (List.mem_append_left _ hg)
        exact absurd (Option.some.inj (hq.symm.trans hq')).symm hne
    rw [unbound_of_aliased hscopes hc hsep hal f hfound] at hf
    cases hf

/-- **A tag that needs an alias gets its own method's**: between the two stands no other component method. -/
theorem resolve_of_qualifies {p : Place} {m : ComponentMethod} {refs : List TagReference}
    (hm : MethodAt rule src scopes root p m refs) {e : List Nat × Node} (he : e ∈ Component.owned src rule.stem p.path p.node)
    {r : TagReference} (hr : .ok r ∈ Component.tagReferences src scopes.isBoundAt e.1 e.2) (hq : rule.qualifies r = true) :
    (scopes.declareAll "const" declared).resolve e.1 r.name = some (some p.path, "const") := by
  have hmem : r ∈ refs := (hm.mem_refs_iff r).2 ⟨e, he, hr⟩
  have hal := aliased_of_mem_refs hscopes hc hm hmem hq
  have hkind : Scope.functionKinds.contains p.node.kind = true := by
    rw [hsep.definition p m ⟨refs, hm, r, hmem, hq⟩]; decide
  obtain ⟨sc, rest, hown⟩ := Scopes.framesAt_function hscopes (Node.at?_of_mem_places hm.place) hkind
  obtain ⟨rel, hrel, -⟩ := Component.owned_spec src rule.stem p.parent p.path p.node e he
  obtain ⟨inner, heq, hinner⟩ := scopes.framesAt_append p.path rel
  have hnone : ∀ f ∈ scopes.framesAt e.1, f.2.find? r.name = none := by
    rw [← scopes.isBoundAt_eq_false_iff, ← bound_of_mem_tagReferences hr]; exact (qualifies_iff.1 hq).2
  rw [resolve_declareAll hscopes hc hsep hdeclared]
  rw [hrel, heq, hown] at hnone ⊢
  rw [List.findSome?_append, List.findSome?_eq_none_iff.2, Option.none_or, List.findSome?_cons,
    hnone (some p.path, sc) (List.mem_append_right _ List.mem_cons_self), Option.none_or,
    if_pos ((any_declared_iff hdeclared _ _).2 ⟨p.path, rfl, hal⟩)]
  · rfl
  · intro f hf
    rw [hnone f (List.mem_append_left _ hf), Option.none_or, if_neg, Option.map_none]
    rw [any_declared_iff hdeclared]
    rintro ⟨q, hq, p', m', ⟨refs', hm', -⟩, rfl, -⟩
    obtain ⟨q', hq', hfrom, hne⟩ := hinner f hf
    rw [hq, Option.some.injEq] at hq'
    subst hq'
    obtain ⟨name, hname, -⟩ := hm'.found.1
    have hto : p'.path <+: e.1 := Scopes.prefix_of_mem_framesAt
      (show f ∈ scopes.framesAt e.1 by rw [hrel, heq]; exact List.mem_append_left _ hf) hq
    exact hne (Component.path_eq_of_owned hm.place hm'.place hname he hfrom hto)

/-- **Outside the methods that get aliases nothing changes.** -/
theorem resolve_outside {path : List Nat} (hout : ∀ p m, Receives rule src scopes root p m → ¬ p.path <+: path) (x : String) :
    (scopes.declareAll "const" declared).resolve path x = scopes.resolve path x := by
  rw [resolve_declareAll hscopes hc hsep hdeclared, Scopes.resolve]
  have hsame : ∀ f ∈ scopes.framesAt path,
      declared.any (fun a => f.1 == some a.1 && x == a.2) = false := fun f hf => by
    rw [← Bool.not_eq_true, any_declared_iff hdeclared]
    rintro ⟨q, hq, p, m, hrec, rfl, -⟩
    exact hout p m hrec (Scopes.prefix_of_mem_framesAt hf hq)
  revert hsame
  generalize scopes.framesAt path = fs
  intro hsame
  induction fs with
  | nil => rfl
  | cons f fs ih =>
    rw [List.findSome?_cons, List.findSome?_cons, hsame f List.mem_cons_self, if_neg Bool.false_ne_true, Option.or_none,
      ih (fun g hg => hsame g (List.mem_cons_of_mem _ hg))]

end

/-- **Alias hygiene**: a planned name is bound in no scope around its method, and declaring all planned names, in whatever
order, keeps every binding, gives each tag that needs one its own method's and changes nothing outside. -/
theorem declareAll_hygienic (rule : Rule) (file : String) (src : Bytes) (root : Node)
    (hread : ∀ n ∈ root.preorder, Lexical.Readable src n) (c : Collection)
    (hc : collectSurvey rule file (Survey.ofTree src rule.stem rule.asks root) = .ok c) :
    ∃ scopes, Scopes.ofTree src root = .ok scopes ∧ (Separate rule src scopes root →
      (∀ path x, Aliased rule src scopes root c.plan path x →
        (∃ own outer, scopes.framesAt path = (some path, own) :: outer) ∧ ∀ f ∈ scopes.framesAt path, f.2.find? x = none) ∧
      ∀ declared : Additions, (∀ path x, (path, x) ∈ declared ↔ Aliased rule src scopes root c.plan path x) →
        let after := scopes.declareAll "const" declared
        (∀ path x b, scopes.resolve path x = some b → after.resolve path x = some b) ∧
        (∀ p m refs, MethodAt rule src scopes root p m refs → ∀ e ∈ Component.owned src rule.stem p.path p.node,
          ∀ r, .ok r ∈ Component.tagReferences src scopes.isBoundAt e.1 e.2 → rule.qualifies r = true →
            after.resolve e.1 r.name = some (some p.path, "const")) ∧
        (∀ path, (∀ p m, Receives rule src scopes root p m → ¬ p.path <+: path) →
          ∀ x, after.resolve path x = scopes.resolve path x)) := by
  obtain ⟨scopes, hscopes⟩ := Lexical.exists_ofTree hread
  refine ⟨scopes, hscopes, fun hsep => ⟨fun path x hal => ⟨?_, unbound_of_aliased hscopes hc hsep hal⟩, ?_⟩⟩
  · obtain ⟨p, m, hrec, rfl, -⟩ := hal
    have hmem := hrec
    obtain ⟨refs, hm, -⟩ := hmem
    exact Scopes.framesAt_function hscopes (Node.at?_of_mem_places hm.place)
      (by rw [hsep.definition p m hrec]; decide)
  · intro declared hdeclared
    exact ⟨fun path x b h => resolve_of_resolve hscopes hc hsep hdeclared h,
      fun p m refs hm e he r hr hq => resolve_of_qualifies hscopes hc hsep hdeclared hm he hr hq,
      fun path hout x => resolve_outside hscopes hc hsep hdeclared hout x⟩

/-! ## A tag in a function in a method -/

def cardText : String := "render() \x7b () => <Card/> \x7d"

def card : Node :=
  .mk ⟨"class_body", 0, 26, "", true, false⟩ [.mk ⟨"method_definition", 0, 26, "", true, false⟩
    [.mk ⟨"property_identifier", 0, 6, "name", true, false⟩ [],
      .mk ⟨"statement_block", 9, 26, "body", true, false⟩
        [.mk ⟨"\x7b", 9, 10, "", false, false⟩ [],
          .mk ⟨"arrow_function", 11, 24, "", true, false⟩
            [.mk ⟨"jsx_self_closing_element", 17, 24, "body", true, false⟩
              [.mk ⟨"identifier", 18, 22, "name", true, false⟩ []]],
          .mk ⟨"\x7d", 25, 26, "", false, false⟩ []]]]

def cardRule : Rule := ⟨"render", .aliased⟩

def cardPlan : Plan := ⟨[⟨11, ["Card"], " ", "", "render"⟩]⟩

def cardReference : TagReference := ⟨"Card", false, 1, 19, false⟩

theorem path_of_card_method {p : Place} (hp : p ∈ card.places none []) {name : String}
    (h : Component.methodName? (Bytes.ofString cardText) "render" p.parent p.node = .ok (some name)) :
    p.path = [0] ∧ p.node.kind = "method_definition" :=
  (by decide +kernel : ∀ p ∈ card.places none [],
    (Component.methodName? (Bytes.ofString cardText) "render" p.parent p.node).toOption.join.isSome = true →
      p.path = [0] ∧ p.node.kind = "method_definition") p hp (by rw [h]; rfl)

/-- In the function the tag's name means what is declared on the method. -/
theorem hygienic_card : ∃ scopes, Scopes.ofTree (Bytes.ofString cardText) card = .ok scopes ∧
    (scopes.declareAll "const" [([0], "Card")]).resolve [0, 1, 1, 0] "Card" = some (some [0], "const") := by
  have hc : collectSurvey cardRule "" (Survey.ofTree (Bytes.ofString cardText) cardRule.stem cardRule.asks card) =
      .ok ⟨cardPlan, []⟩ := eq_ok_of_toOption (by decide +kernel)
  obtain ⟨scopes, hscopes, h⟩ :=
    declareAll_hygienic cardRule "" (Bytes.ofString cardText) card (by decide +kernel) ⟨cardPlan, []⟩ hc
  have hplace : ∀ {p m refs}, MethodAt cardRule (Bytes.ofString cardText) scopes card p m refs →
      p.path = [0] ∧ p.node.kind = "method_definition" := fun hm => by
    obtain ⟨name, hname, -⟩ := hm.found.1
    exact path_of_card_method hm.place hname
  obtain ⟨m, p, hm⟩ : ∃ m p, MethodAt cardRule (Bytes.ofString cardText) scopes card p m [cardReference] := by
    have hmem : (⟨"render", some 11, true, "", " ", 1, 1⟩, [cardReference]) ∈
        (Survey.ofTree (Bytes.ofString cardText) cardRule.stem cardRule.asks card).methods := by decide +kernel
    exact ⟨_, (mem_methods_iff hscopes (collectSurvey_ok hc).2 _ _).1 hmem⟩
  have hal := aliased_of_mem_refs hscopes hc hm (List.mem_singleton_self _) (by decide +kernel)
  rw [(hplace hm).1] at hal
  obtain ⟨-, h⟩ := h ⟨fun p m ⟨refs, hm, _⟩ => (hplace hm).2,
    fun p m p' m' ⟨_, hm, _⟩ ⟨_, hm', _⟩ _ => (hplace hm).1.trans (hplace hm').1.symm⟩
  obtain ⟨-, htags, -⟩ := h [([0], "Card")] (fun path x => by
    rw [List.mem_singleton, Prod.mk.injEq]
    refine ⟨fun ⟨hpath, hx⟩ => by rw [hpath, hx]; exact hal, fun ⟨p, m, ⟨_, hm, _⟩, hpath, o, _, hname⟩ => ?_⟩
    refine ⟨hpath.symm.trans (hplace hm).1, ?_⟩
    by_cases ho : (11 : Int) = o
    · simpa [Plan.hasName, Plan.point?, cardPlan, ho] using hname
    · simp [Plan.hasName, Plan.point?, cardPlan, ho] at hname)
  obtain ⟨e, he, hr⟩ := (hm.mem_refs_iff cardReference).1 (List.mem_singleton_self _)
  have hresolve := htags p m _ hm e he cardReference hr (by decide +kernel)
  have hnode : some p.node = card.at? [0] := by rw [← Node.at?_of_mem_places hm.place, (hplace hm).1]
  rw [show card.at? [0] = some (card.children.headD card) from rfl, Option.some.injEq] at hnode
  rw [(hplace hm).1] at he hresolve
  have hpath : e.1 = [0, 1, 1, 0] :=
    (by decide +kernel : ∀ e ∈ Component.owned (Bytes.ofString cardText) "render" [0] (card.children.headD card),
      (Component.tagRoot? e.2).isSome = true → e.1 = [0, 1, 1, 0]) e (by rw [← hnode]; exact he) (by
        cases hroot : Component.tagRoot? e.2 with
        | none => rw [Component.tagReferences, hroot] at hr; cases hr
        | some _ => rfl)
  rw [hpath] at hresolve
  exact ⟨scopes, hscopes, hresolve⟩

end Alias
end TagAlias
