import TagAlias.Alias.Transform
import TagAlias.Proofs.Alias.GraftSurvey
import TagAlias.Proofs.Alias.Grow
import TagAlias.Proofs.Alias.Hygiene
/-!
# A module with its plan carried out is settled

On a well-nested tree whose texts can be read, where the component methods that get points have blocks of their own, the
tree with the plan carried out needs no more aliases: the analysis finds the names in the bodies they were put into
(`collect_grow`), and the transformer leaves the new text as it is (`transform_grow`).
-/
namespace TagAlias

namespace Component

theorem body_of_target {src : Bytes} {name : String} {n : Node} {m : ComponentMethod} (h : method src name n = .ok m)
    {o : Int} (ho : Alias.target? m = some o) :
    ∃ body k lead, n.child? "body" = some body ∧ bodyStart src body = .ok (k, lead) ∧ o = k := by
  obtain ⟨at_, -, hm⟩ := method_eq_ok_iff.1 h
  cases hbody : n.child? "body" with
  | none =>
    rw [hbody] at hm
    subst hm
    cases ho
  | some body =>
    rw [hbody] at hm
    obtain ⟨k, lead, hstart, rfl⟩ := hm
    exact ⟨body, k, lead, rfl, hstart, (Option.some.inj ho).symm⟩

/-- At a place stand the names put into the body of its own node, before those around. -/
theorem suppliedOn_place (supply : Node → List String) (src : Bytes) (stem : String) : ∀ (rel : List Nat) (known : List String)
    {parent : Option String} {path : List Nat} {n : Node} {p : Place}, n.placeAt? parent path rel = some p →
    ∃ around, suppliedOn supply src stem known parent n rel = supplied supply src stem p.parent p.node ++ around
  | [], known, parent, path, n, p, h => by
    rw [Node.placeAt?_nil, Option.some.injEq] at h
    subst h
    exact ⟨known, suppliedOn_nil supply src stem known parent n⟩
  | i :: rel, known, parent, path, n, p, h => by
    rw [Node.placeAt?_cons] at h
    obtain ⟨c, hc, hp⟩ := Option.bind_eq_some_iff.1 h
    rw [suppliedOn_cons, hc]
    exact suppliedOn_place supply src stem rel _ hp

end Component

namespace Alias

/-! ## The points of a plan in a tree -/

/-- The names that a method with its own scope gets in its body are there at its place. -/
theorem mem_suppliedOn {rule : Rule} {src : Bytes} {scopes : Scopes} {root : Node} {p : Place} {m : ComponentMethod}
    {refs : List TagReference} (hm : MethodAt rule src scopes root p m refs) (hkind : p.node.kind = "method_definition")
    {supply : Node → List String} {body : Node} (hbody : p.node.child? "body" = some body) {x : String} (hx : x ∈ supply body) :
    x ∈ Component.suppliedOn supply src rule.stem [] none root p.path := by
  obtain ⟨name, hmethod, -⟩ := hm.found.1
  have hsupplied : Component.supplied supply src rule.stem p.parent p.node = supply body := by
    rw [Component.supplied, if_pos (Component.isOwnScope_iff.2 ⟨hkind, name, hmethod⟩), hbody]
    rfl
  obtain ⟨around, haround⟩ := Component.suppliedOn_place supply src rule.stem p.path [] (Node.placeAt?_of_mem_places hm.place)
  rw [haround, hsupplied]
  exact List.mem_append_left _ hx

section

variable {rule : Rule} {src : Bytes} {scopes : Scopes} {root : Node} {file : String} {c : Collection}
  (hscopes : Scopes.ofTree src root = .ok scopes)
  (hc : collectSurvey rule file (Survey.ofTree src rule.stem rule.asks root) = .ok c)

include hscopes hc

/-- **Every point lies where a node begins or ends.** -/
theorem boundary_of_mem_points {q : InsertionPoint} (hq : q ∈ c.plan.points) (hn : q.names ≠ []) :
    ∃ m ∈ root.preorder, q.offset = m.start ∨ q.offset = m.stop := by
  obtain ⟨x, hx⟩ := List.exists_mem_of_ne_nil _ hn
  have hname : c.plan.hasName q.offset x = true := by
    rw [Plan.hasName, Plan.point?_of_mem (offsets_nodup (collectSurvey_ok hc).1) hq]
    simpa using hx
  obtain ⟨p, m, refs, hm, ho, -⟩ := method_of_hasName hscopes hc hname
  obtain ⟨name, -, hmethod⟩ := hm.found.1
  obtain ⟨body, k, lead, hbody, hstart, hk⟩ := Component.body_of_target hmethod ho
  obtain ⟨b, hb, hoff⟩ := (Component.takesAt_of_bodyStart hstart).boundary
  refine ⟨b, ?_, ?_⟩
  · have hp : p.node ∈ root.preorder := Node.mem_preorder_of_mem_places hm.place
    have hin : body ∈ p.node.preorder := Node.mem_preorder_of_child? hbody
    exact Node.preorder_trans _ hp (Node.preorder_trans _ hin (Node.mem_preorder_of_mem_children hb))
  · rw [hk, Int.natCast_inj, Int.natCast_inj]
    exact hoff

/-- **A tag that needs an alias finds its name in the body of its method.** -/
theorem mem_newNames_of_qualifies {p : Place} {m : ComponentMethod} {refs : List TagReference}
    (hm : MethodAt rule src scopes root p m refs) {r : TagReference} (hr : r ∈ refs) (hq : rule.qualifies r = true) :
    ∃ body, p.node.child? "body" = some body ∧ (c.plan.pointIn src body).isSome = true ∧ r.name ∈ newNames src c.plan body := by
  obtain ⟨o, ho, hname⟩ := hasName_of_qualifies hscopes hc hm hr hq
  obtain ⟨q, hpoint, hin⟩ := Plan.exists_of_hasName hname
  obtain ⟨name, -, hmethod⟩ := hm.found.1
  obtain ⟨body, k, lead, hbody, hstart, hk⟩ := Component.body_of_target hmethod ho
  have hpointIn : c.plan.pointIn src body = some q := by
    unfold Plan.pointIn
    rw [hstart, ← hpoint, hk]
  refine ⟨body, hbody, by rw [hpointIn]; rfl, ?_⟩
  unfold newNames
  rw [hpointIn]
  exact hin

end

/-! ## The fixpoint -/

/-- The tree is well-nested and lies within the text, its nodes have texts, and those whose texts are read are leaves. -/
structure Legible (src : Bytes) (root : Node) : Prop where
  nested : root.Nested
  inside : root.stop ≤ src.length
  readable : ∀ m ∈ root.preorder, Lexical.Readable src m
  leaves : ∀ m ∈ root.preorder, ∀ isBody, ∀ k ∈ reads src isBody m, k.children = []

/-- Every component method that gets a point is a method with its own scope, and its body is a block. -/
def TakesInBlocks (src : Bytes) (stem : String) (plan : Plan) (root : Node) : Prop :=
  ∀ p ∈ root.places none [], ∀ name, Component.methodName? src stem p.parent p.node = .ok (some name) →
    ∀ body, p.node.child? "body" = some body → (plan.pointIn src body).isSome = true →
      p.node.kind = "method_definition" ∧ body.kind = "statement_block"

section

variable {rule : Rule} {src : Bytes} {root : Node} {file : String} {c : Collection}
  (hlegible : Legible src root) (hblocks : TakesInBlocks src rule.stem c.plan root)
  (hc : collectSurvey rule file (Survey.ofTree src rule.stem rule.asks root) = .ok c)

include hlegible

include hc

theorem Legible.points_inside : c.plan.Inside src := by
  obtain ⟨scopes, hscopes⟩ := Lexical.exists_ofTree hlegible.readable
  intro q hq hn
  obtain ⟨m, hm, hoff⟩ := boundary_of_mem_points hscopes hc hq hn
  have hspan := Node.Nested.span root hlegible.nested hm
  have hin := hlegible.inside
  omega

theorem Legible.within : Edits.Within 0 src (c.plan.edits rule.stem) :=
  Plan.within_edits (offsets_nodup (collectSurvey_ok hc).1) (hlegible.points_inside hc)

theorem Legible.fits : ∀ m ∈ root.preorder, Fits src (c.plan.edits rule.stem) m := by
  obtain ⟨scopes, hscopes⟩ := Lexical.exists_ofTree hlegible.readable
  intro m hm
  have hspan := Node.Nested.span root hlegible.nested hm
  have hin := hlegible.inside
  refine ⟨by omega, ?_⟩
  intro hleaf e he
  obtain ⟨q, hq, hn, rfl⟩ := Plan.mem_edits.1 he
  obtain ⟨b, hb, hoff⟩ := boundary_of_mem_points hscopes hc hq hn
  have hapart := Node.Nested.apart root hlegible.nested hb hm hleaf
  rcases hoff with hoff | hoff
  · simp only [hoff, Int.toNat_natCast]
    exact hapart.1
  · simp only [hoff, Int.toNat_natCast]
    exact hapart.2

include hblocks

theorem Legible.graft (hsrc : Utf8.Encodes src) (hafter : Utf8.Encodes (Edits.weave src 0 (c.plan.edits rule.stem))) :
    Graft (growth src rule.stem c.plan) [] none root (grow src rule.stem c.plan none false root) := by
  refine graft_grow (hlegible.within hc) hsrc hafter none [] false root (hlegible.fits hc) ?_ (fun h => by cases h)
  intro p hp hown body hbody hnames
  obtain ⟨-, name, hname⟩ := Component.isOwnScope_iff.1 hown
  have hpoint : (c.plan.pointIn src body).isSome = true := by
    unfold newNames at hnames
    cases hin : c.plan.pointIn src body with
    | none => rw [hin] at hnames; exact absurd rfl hnames
    | some q => rfl
  exact (hblocks p hp name hname body hbody hpoint).2

/-- **Analysed and collected again, the tree with the plan carried out asks for nothing.** -/
theorem Legible.collect_grow (hsrc : Utf8.Encodes src) (hafter : Utf8.Encodes (Edits.weave src 0 (c.plan.edits rule.stem))) :
    (∃ scopes, Scopes.ofTree (Edits.weave src 0 (c.plan.edits rule.stem)) (grow src rule.stem c.plan none false root) = .ok scopes) ∧
    collectSurvey rule file (Survey.ofTree (Edits.weave src 0 (c.plan.edits rule.stem)) rule.stem rule.asks
      (grow src rule.stem c.plan none false root)) = .ok ⟨.empty, []⟩ := by
  obtain ⟨scopes, hscopes⟩ := Lexical.exists_ofTree hlegible.readable
  have hgraft := hlegible.graft hblocks hc hsrc hafter
  have hplain : ∀ m ∈ root.preorder, Plain (growth src rule.stem c.plan) m := fun m hm =>
    ⟨hlegible.readable m hm, fun isBody k hk => ⟨hlegible.leaves m hm isBody k hk, rfl⟩⟩
  refine ⟨?_, (collect_graft_iff rfl hgraft hplain hscopes (collectSurvey_ok hc).2 file).2 ?_⟩
  · obtain ⟨_, s', -, hs', -⟩ := ofTree_graft hgraft hplain
    exact ⟨s', hs'⟩
  · intro p m refs (hm : MethodAt rule src scopes root p m refs) r hr hq
    obtain ⟨body, hbody, hpoint, hname⟩ := mem_newNames_of_qualifies hscopes hc hm hr hq
    obtain ⟨name, hmethod, -⟩ := hm.found.1
    have hkind := (hblocks p hm.place name hmethod body hbody hpoint).1
    exact mem_suppliedOn hm hkind hbody hname

omit hblocks

/-- The new text can be read, unless an empty node begins inside a character. -/
theorem Legible.encodes_weave (hsrc : Utf8.Encodes src)
    (hempty : ∀ m ∈ root.preorder, m.start = m.stop → Utf8.Encodes (src.take m.start)) :
    Utf8.Encodes (Edits.weave src 0 (c.plan.edits rule.stem)) := by
  obtain ⟨scopes, hscopes⟩ := Lexical.exists_ofTree hlegible.readable
  refine Edits.encodes_weave hsrc _ 0 (hlegible.within hc) ⟨[], rfl⟩ ?_
  intro e he
  obtain ⟨q, hq, hn, rfl⟩ := Plan.mem_edits.1 he
  refine ⟨encodes_ofString _, ?_⟩
  obtain ⟨m, hm, hoff⟩ := boundary_of_mem_points hscopes hc hq hn
  have hspan := Node.Nested.span root hlegible.nested hm
  have hin := hlegible.inside
  obtain ⟨s, hs⟩ := hlegible.readable m hm
  have hstart : Utf8.Encodes (src.take m.start) := by
    by_cases hlt : m.start < m.stop
    · exact Edits.encodes_take_of_slice hsrc hlt (by omega) (encodes_of_toString? hs)
    · exact hempty m hm (by omega)
  rcases hoff with hoff | hoff
  · simp only [hoff, Int.toNat_natCast]
    exact hstart
  · simp only [hoff, Int.toNat_natCast]
    exact Edits.encodes_take_slice hspan.2.1 hstart (encodes_of_toString? hs)

end

theorem transform_of_collect {t : Transformer} {parse : Parse} {text file : String} {dialect : Option String} {d : Dialect}
    (hd : Dialect.resolve file t.overrides dialect = .ok d) {root : Node} (hroot : parse d text.toList = some root)
    (hfault : root.hasFault = false) {c : Collection}
    (hc : collectSurvey t.rule file (Survey.ofTree (Bytes.ofString text) t.rule.stem t.rule.asks root) = .ok c) :
    t.transform parse text file dialect = t.finish file text c := by
  unfold Transformer.transform
  rw [hd]
  simp only [bind, Except.bind, Module.read, hroot, Module.ofTree, hfault, Module.survey, Bool.false_eq_true, if_false, hc]

theorem edits_of_isEmpty {p : Plan} (h : p.isEmpty = true) (stem : String) : p.edits stem = [] := by
  refine List.eq_nil_iff_forall_not_mem.2 (fun e he => ?_)
  obtain ⟨q, hq, hn, -⟩ := Plan.mem_edits.1 he
  have := List.all_eq_true.1 h q hq
  exact hn (by simpa using this)

theorem splice_of_isEmpty {p : Plan} (h : p.isEmpty = true) (stem : String) (src : Bytes) : p.splice stem src = .ok src := by
  have hin : p.Inside src := fun q hq hn => absurd (List.isEmpty_iff.1 (List.all_eq_true.1 h q hq)) hn
  rw [Plan.splice_eq_weave hin, edits_of_isEmpty h, Edits.weave, List.drop_zero]

/-- **What a collection makes of a text** is the text with the plan carried out, also where there is nothing to carry out. -/
theorem finish_eq_ok_iff {t : Transformer} {file text : String} {c : Collection} {r : Transformed} :
    t.finish file text c = .ok r ↔ ∃ bytes code, c.plan.splice t.rule.stem (Bytes.ofString text) = .ok bytes ∧
      bytes.toString? = .ok code ∧ r = ⟨file, text, code, c.plan, c.diagnostics⟩ := by
  unfold Transformer.finish
  by_cases hempty : c.plan.isEmpty = true
  · rw [if_pos hempty, splice_of_isEmpty hempty]
    constructor
    · intro h
      exact ⟨_, text, rfl, toString?_ofString text, (Except.ok.inj h).symm⟩
    · rintro ⟨bytes, code, hbytes, hcode, rfl⟩
      rw [← Except.ok.inj hbytes, toString?_ofString, Except.ok.injEq] at hcode
      rw [← hcode]
  · rw [if_neg hempty]
    cases hsplice : c.plan.splice t.rule.stem (Bytes.ofString text) with
    | error e =>
      constructor
      · intro h; cases h
      · rintro ⟨bytes, code, h, -⟩; cases h
    | ok bytes =>
      cases hcode : bytes.toString? with
      | error f =>
        constructor
        · intro h
          simp only [Except.mapError, bind, Except.bind, hcode] at h
          cases h
        · rintro ⟨bytes', code, h, h', -⟩
          rw [← Except.ok.inj h, hcode] at h'
          cases h'
      | ok code =>
        simp only [Except.mapError, bind, Except.bind, hcode, pure, Except.pure, Except.ok.injEq]
        constructor
        · intro h
          exact ⟨bytes, code, rfl, hcode, h.symm⟩
        · rintro ⟨bytes', code', rfl, h', rfl⟩
          rw [hcode, Except.ok.injEq] at h'
          rw [h']

theorem finish_ok {t : Transformer} {file text code : String} {c : Collection} (hin : c.plan.Inside (Bytes.ofString text))
    (hcode : (Edits.weave (Bytes.ofString text) 0 (c.plan.edits t.rule.stem)).toString? = .ok code) :
    t.finish file text c = .ok ⟨file, text, code, c.plan, c.diagnostics⟩ :=
  finish_eq_ok_iff.2 ⟨_, code, Plan.splice_eq_weave hin, hcode, rfl⟩

/-- **The text with the plan carried out is a fixpoint.**  On a legible tree from which collecting succeeds, splicing gives a
text, readable unless an empty node begins inside a character.  On the tree with the declarations put in, a fresh analysis
succeeds, nothing is planned or remarked, and the transformer, which made the new text of the old one, returns it as it is. -/
theorem transform_grow (t : Transformer) (text file : String) (root : Node) (c : Collection)
    (hlegible : Legible (Bytes.ofString text) root)
    (hc : collectSurvey t.rule file (Survey.ofTree (Bytes.ofString text) t.rule.stem t.rule.asks root) = .ok c)
    (hblocks : TakesInBlocks (Bytes.ofString text) t.rule.stem c.plan root) :
    ∃ bytes, c.plan.splice t.rule.stem (Bytes.ofString text) = .ok bytes ∧
      ((∀ m ∈ root.preorder, m.start = m.stop → Utf8.Encodes ((Bytes.ofString text).take m.start)) →
        ∃ code, bytes.toString? = .ok code) ∧
      ∀ code, bytes.toString? = .ok code →
        (∃ scopes, Scopes.ofTree (Bytes.ofString code) (grow (Bytes.ofString text) t.rule.stem c.plan none false root) =
          .ok scopes) ∧
        collectSurvey t.rule file (Survey.ofTree (Bytes.ofString code) t.rule.stem t.rule.asks
          (grow (Bytes.ofString text) t.rule.stem c.plan none false root)) = .ok ⟨.empty, []⟩ ∧
        ∀ dialect d, Dialect.resolve file t.overrides dialect = .ok d → root.hasFault = false →
          (∀ parse : Parse, parse d text.toList = some root →
            t.transform parse text file dialect = .ok ⟨file, text, code, c.plan, c.diagnostics⟩) ∧
          ∀ parse : Parse, parse d code.toList = some (grow (Bytes.ofString text) t.rule.stem c.plan none false root) →
            t.transform parse code file dialect = .ok ⟨file, code, code, .empty, []⟩ := by
  have hsrc : Utf8.Encodes (Bytes.ofString text) := encodes_ofString text
  have hinside := hlegible.points_inside hc
  refine ⟨_, Plan.splice_eq_weave hinside, ?_, ?_⟩
  · intro hempty
    obtain ⟨cs, hcs⟩ := (Utf8.encodes_iff _).1 (hlegible.encodes_weave hc hsrc hempty)
    exact ⟨String.ofList cs, by rw [Bytes.toString?, hcs]; rfl⟩
  · intro code hcode
    have hafter := encodes_of_toString? hcode
    obtain ⟨hscopes, hagain⟩ := hlegible.collect_grow hblocks hc hsrc hafter
    rw [← ofString_of_toString? hcode] at hscopes hagain
    refine ⟨hscopes, hagain, ?_⟩
    intro dialect d hd hfault
    refine ⟨fun parse hroot => ?_, fun parse hroot => ?_⟩
    · rw [transform_of_collect hd hroot hfault hc]
      exact finish_ok hinside hcode
    · have hfault' : (grow (Bytes.ofString text) t.rule.stem c.plan none false root).hasFault = false :=
        (Graft.hasFault _ (hlegible.graft hblocks hc hsrc hafter)).trans hfault
      rw [transform_of_collect hd hroot hfault' hagain]
      rfl

/-! ## A tag in a function in a method -/

def cardCode : String := "render() \x7b const Card = this.renderCard; () => <Card/> \x7d"

theorem legible_card : Legible (Bytes.ofString cardText) card := by
  refine ⟨by decide, by decide +kernel, by decide +kernel, ?_⟩
  intro m hm isBody k hk
  have hleaf : k.children.isEmpty = true :=
    (by decide +kernel : ∀ m ∈ card.preorder, ∀ isBody, ∀ k ∈ reads (Bytes.ofString cardText) isBody m,
      k.children.isEmpty = true) m hm isBody k hk
  exact List.isEmpty_iff.1 hleaf

/-- The declaration in front of the function is all the tag in it needs. -/
theorem transform_grow_card : cardPlan.splice cardRule.stem (Bytes.ofString cardText) = .ok (Bytes.ofString cardCode) ∧
    (⟨cardRule, []⟩ : Transformer).transform (.given (grow (Bytes.ofString cardText) cardRule.stem cardPlan none false card))
      cardCode "" (some "tsx") = .ok ⟨"", cardCode, cardCode, .empty, []⟩ := by
  have hc : collectSurvey cardRule "" (Survey.ofTree (Bytes.ofString cardText) cardRule.stem cardRule.asks card) =
      .ok ⟨cardPlan, []⟩ := eq_ok_of_toOption (by decide +kernel)
  have hblocks : TakesInBlocks (Bytes.ofString cardText) cardRule.stem cardPlan card := by
    intro p hp name hname body hbody _
    refine ⟨(path_of_card_method hp hname).2, ?_⟩
    have hall : ∀ p ∈ card.places none [], ∀ body ∈ (p.node.child? "body").toList, p.node.kind = "method_definition" →
        body.kind = "statement_block" := by decide +kernel
    exact hall p hp body (by rw [hbody]; exact List.mem_singleton_self _) (path_of_card_method hp hname).2
  have hsplice : cardPlan.splice cardRule.stem (Bytes.ofString cardText) = .ok (Bytes.ofString cardCode) :=
    eq_ok_of_toOption (by decide +kernel)
  obtain ⟨bytes, hbytes, -, h⟩ := transform_grow ⟨cardRule, []⟩ cardText "" card ⟨cardPlan, []⟩ legible_card hc hblocks
  have hsame : Bytes.ofString cardCode = bytes := Except.ok.inj (hsplice.symm.trans hbytes)
  obtain ⟨-, -, htransform⟩ := h cardCode (by rw [← hsame, toString?_ofString])
  exact ⟨hsplice, (htransform (some "tsx") .tsx (eq_ok_of_toOption (by decide +kernel)) (by decide +kernel)).2 _ rfl⟩

end Alias
end TagAlias
