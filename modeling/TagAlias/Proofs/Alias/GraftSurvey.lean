import TagAlias.Proofs.Alias.GraftScope
import TagAlias.Proofs.Alias.Methods
import TagAlias.Proofs.Component.Method
/-!
# The survey of a tree with declarations put in

The component methods of a tree are those of the tree with declarations put in, with the same tags (`methodsUnder_graft`); a
tag is bound afterwards if it was before or if its name is put into the body of a component method around it.  So
collecting from the new tree finds nothing to do exactly where every tag that needed an alias has its name put in there
(`collect_graft_iff`).
-/
namespace TagAlias
namespace Alias

variable {g : Change}

/-- The same tag, where the names are put in around it. -/
structure Seen (names : List String) (r r' : TagReference) : Prop where
  name : r'.name = r.name
  isMemberRoot : r'.isMemberRoot = r.isMemberRoot
  bound : r.name ≠ "" → r'.bound = (r.bound || names.contains r.name)

/-- What could be read can be read, and is the same tag. -/
def Kept (names : List String) (e e' : Except Failure TagReference) : Prop :=
  ∀ r, e = .ok r → ∃ r', e' = .ok r' ∧ Seen names r r'

/-! ## Methods and tags -/

/-- **A node is a component method afterwards if it is before.** -/
theorem methodName?_graft {o n : Node} (h : Related g o n) (hplain : Plain g o) (parent : Option String) :
    Component.methodName? g.after g.stem parent n = Component.methodName? g.before g.stem parent o := by
  unfold Component.methodName?
  rw [h.kind]
  by_cases hc : (Component.methodKinds.contains o.kind && parent == some "class_body") = true
  · rw [if_pos hc, if_pos hc]
    rcases Forall₂.cases_toList (h.child (f := "name") (by decide)) with ⟨ho, hn⟩ | ⟨x, y, ho, hn, hxy⟩
    · rw [ho, hn]
    · rw [ho, hn]
      simp only [hxy.kind]
      by_cases hkind : Component.plainNameKinds.contains x.kind = true
      · have hx : x ∈ reads g.before false o := by
          refine List.mem_append_left _ (List.mem_append_right _ ?_)
          rw [if_pos (Bool.and_eq_true_iff.1 hc).1, ho]
          exact List.mem_filter.2 ⟨List.mem_singleton_self x, hkind⟩
        obtain ⟨hleaf, hfast⟩ := hplain.settled false x hx
        rw [hxy.text hleaf hfast]
      · rw [if_neg hkind, if_neg hkind]
  · rw [if_neg hc, if_neg hc]

theorem Grafts.ne_nil : ∀ {cs' : List Node} {seeks : Bool} {names : List String} {parent : String} {cs : List Node},
    Grafts g seeks names parent cs cs' → cs ≠ [] → cs' ≠ []
  | [], _, _, _, _, .nil, h => absurd rfl h
  | _ :: _, _, _, _, _, _, _ => by simp

theorem method_graft {o n : Node} (h : Related g o n) {name : String} {m : ComponentMethod}
    (hm : Component.method g.before name o = .ok m) : ∃ m', Component.method g.after name n = .ok m' := by
  obtain ⟨at_, hat, hm⟩ := Component.method_eq_ok_iff.1 hm
  obtain ⟨at', hat'⟩ := h.position ⟨at_, hat⟩
  rcases Forall₂.cases_toList (h.child (f := "body") (by decide)) with ⟨ho, hn⟩ | ⟨x, y, ho, hn, hxy⟩
  · exact ⟨_, Component.method_eq_ok_iff.2 ⟨at', hat', by rw [hn]⟩⟩
  · rw [ho] at hm
    obtain ⟨o, lead, hstart, -⟩ := hm
    have hne : y.children ≠ [] := by
      obtain ⟨_, _, _, below⟩ := hxy.grafts
      exact below.ne_nil (Component.exists_bodyStart_iff.1 ⟨_, hstart⟩)
    obtain ⟨start, hstart'⟩ := Component.exists_bodyStart_iff.2 hne
    exact ⟨_, Component.method_eq_ok_iff.2 ⟨at', hat', by rw [hn]; exact ⟨start.1, start.2, hstart', rfl⟩⟩⟩

/-- **A tag is the same tag, and its name is bound if it was or if it is put in.** -/
theorem tagReferences_graft {o n : Node} (h : Related g o n) (hplain : Plain g o) {names : List String}
    {chain chain' : List Scope} (hknows : Knows names chain chain') :
    List.Forall₂ (Kept names) (Component.tagReferences g.before (fun _ => Scope.isBound chain) [] o)
      (Component.tagReferences g.after (fun _ => Scope.isBound chain') [] n) := by
  unfold Component.tagReferences
  rcases Forall₂.cases_toList (corresponds_related.tagRoot h) with ⟨ho, hn⟩ | ⟨⟨x, u⟩, ⟨y, v⟩, ho, hn, hxy, huv⟩
  · rw [ho, hn]; exact .nil
  · have hu : u ∈ reads g.before false o := List.mem_append_right _ (by rw [ho]; exact List.mem_singleton_self u)
    obtain ⟨hleaf, hfast⟩ := hplain.settled false u hu
    rw [ho, hn]
    refine .cons (fun r hr => ?_) .nil
    cases hat : Position.ofOffset g.before u.start with
    | error f => rw [hat] at hr; cases hr
    | ok at_ =>
      obtain ⟨at', hat'⟩ := huv.position ⟨at_, hat⟩
      cases htext : u.text g.before with
      | error f => rw [hat, htext] at hr; cases hr
      | ok text =>
        rw [hat, htext] at hr
        rw [hat', show v.text g.after = .ok text from (huv.text hleaf hfast).trans htext]
        refine ⟨_, rfl, ?_⟩
        rw [← Except.ok.inj hr]
        exact ⟨rfl, by rw [hxy.kind], fun hne => hknows text hne⟩

/-! ## The walk -/

theorem supplied_eq_nil {parent : Option String} {n : Node}
    (h : Component.methodName? g.before g.stem parent n = .ok none) :
    Component.supplied g.names g.before g.stem parent n = [] := by
  rw [Component.supplied, Component.isOwnScope, h]
  simp [Except.toOption]

mutual

/-- **A method has the same tags.** -/
theorem referencesUnder_graft : ∀ (n : Node) {names known : List String} {parent : Option String} {o : Node} {isBody : Bool}
    {outer outer' : List Scope}, Graft g names parent o n → (∀ m ∈ o.preorder, Plain g m) → (names ≠ [] → isBody = true) →
    Knows known outer outer' →
    List.Forall₂ (Kept (Component.supplied g.names g.before g.stem parent o ++ known))
      (Component.referencesUnder g.before g.stem outer isBody o) (Component.referencesUnder g.after g.stem outer' isBody n)
  | .mk l' cs', names, known, parent, .mk l cs, isBody, outer, outer', h, hplain, hbody, hknows => by
    have hrelated : Related g (.mk l cs) (.mk l' cs') := ⟨_, _, h⟩
    have hkind : l'.kind = l.kind := hrelated.kind
    have hchain := isBound_chainOf h hplain hbody hknows
    rw [Component.referencesUnder, Component.referencesUnder, hkind]
    refine List.rel_append (tagReferences_graft hrelated (hplain _ (Node.self_mem_preorder _)) hchain) ?_
    cases h with
    | mk _ _ _ _ below =>
      exact referencesUnderAll_graft cs' below (fun m hm => hplain m (by rw [Node.preorder]; exact List.mem_cons_of_mem _ hm))
        (fun hown => contains_of_isOwnScope hown) hchain

theorem referencesUnderAll_graft : ∀ (cs' : List Node) {seeks seeksBody : Bool} {names known : List String} {parent : String}
    {cs : List Node} {outer outer' : List Scope}, Grafts g seeks names parent cs cs' → (∀ m ∈ Node.preorderAll cs, Plain g m) →
    (seeks = true → seeksBody = true) → Knows known outer outer' →
    List.Forall₂ (Kept known) (Component.referencesUnderAll g.before g.stem outer parent seeksBody cs)
      (Component.referencesUnderAll g.after g.stem outer' parent seeksBody cs')
  | [], _, _, _, _, _, _, _, _, .nil, _, _, _ => by
    rw [Component.referencesUnderAll, Component.referencesUnderAll]; exact .nil
  | c' :: cs', seeks, seeksBody, names, known, parent, _, outer, outer', @Grafts.keep _ _ _ _ c _ cs _ first rest, hplain, hseeks,
      hknows => by
    have hrelated : Related g c c' := ⟨_, _, first⟩
    have hc : ∀ m ∈ c.preorder, Plain g m := fun m hm => hplain m (by
      rw [Node.preorderAll]; exact List.mem_append_left _ hm)
    have hname := methodName?_graft hrelated (hc c (Node.self_mem_preorder c)) (some parent)
    rw [Component.referencesUnderAll, Component.referencesUnderAll, hrelated.field, hname]
    refine List.rel_append ?_ (referencesUnderAll_graft cs' rest
      (fun m hm => hplain m (by rw [Node.preorderAll]; exact List.mem_append_right _ hm)) (seeks_rest hseeks) hknows)
    · cases hmethod : Component.methodName? g.before g.stem (some parent) c with
      | error f => exact .cons (fun r hr => by cases hr) .nil
      | ok name? =>
        cases name? with
        | some name => exact .nil
        | none =>
          have hrefs := @referencesUnder_graft c' _ known (some parent) c (seeksBody && c.field == "body") outer outer' first hc
            (body_of_names hseeks) hknows
          rw [supplied_eq_nil hmethod] at hrefs
          exact hrefs
  | t :: cs', seeks, seeksBody, names, known, parent, _, outer, outer', .semicolon token rest, hplain, hseeks, hknows => by
    rw [Component.referencesUnderAll.eq_def g.after g.stem outer' parent seeksBody (t :: cs')]
    simp only [methodName?_part (allParts_semicolon token).head, referencesUnder_part g.after g.stem outer' _ t
      (allParts_semicolon token), token.field, show ("" == "body") = false from by decide, Bool.and_false, Bool.not_false,
      Bool.and_true, List.nil_append]
    exact referencesUnderAll_graft cs' rest hplain hseeks hknows
  | d :: cs', seeks, seeksBody, _, known, parent, _, outer, outer', .declare declaration rest, hplain, hseeks, hknows => by
    rw [Component.referencesUnderAll.eq_def g.after g.stem outer' parent seeksBody (d :: cs')]
    simp only [declaration.methodName?, declaration.referencesUnder, declaration.field,
      show ("" == "body") = false from by decide, Bool.and_false, Bool.not_false, Bool.and_true, List.nil_append]
    exact referencesUnderAll_graft cs' rest hplain hseeks hknows

end

/-- What was found of a method with all its tags is found again, with the same tags. -/
def FoundAgain (a b : Component.Finding) : Prop :=
  ∀ m refs, a.1 = Survey.found (m, refs) → ∃ m' refs', b.1 = Survey.found (m', refs') ∧ List.Forall₂ (Seen a.2) refs refs'

theorem exists_of_kept {names : List String} : ∀ {refs : List TagReference} {es : List (Except Failure TagReference)},
    List.Forall₂ (Kept names) (refs.map .ok) es → ∃ refs', es = refs'.map .ok ∧ List.Forall₂ (Seen names) refs refs'
  | [], _, .nil => ⟨[], rfl, .nil⟩
  | r :: refs, _, .cons h hs => by
    obtain ⟨r', rfl, hr⟩ := h r rfl
    obtain ⟨refs', rfl, hrefs⟩ := exists_of_kept hs
    exact ⟨r' :: refs', rfl, .cons hr hrefs⟩

theorem methodHere_graft {o n : Node} {names known : List String} {parent : Option String} {isBody : Bool}
    {outer outer' : List Scope} (h : Graft g names parent o n) (hplain : ∀ m ∈ o.preorder, Plain g m)
    (hbody : names ≠ [] → isBody = true) (hknows : Knows known outer outer') (known' : List String) :
    List.Forall₂ FoundAgain
      ((Component.methodHere g.before g.stem outer isBody parent o).map
        (·, Component.supplied g.names g.before g.stem parent o ++ known)).toList
      ((Component.methodHere g.after g.stem outer' isBody parent n).map (·, known')).toList := by
  have hrelated : Related g o n := ⟨_, _, h⟩
  unfold Component.methodHere
  rw [methodName?_graft hrelated (hplain o (Node.self_mem_preorder o)) parent]
  cases Component.methodName? g.before g.stem parent o with
  | error f => exact .cons (fun m refs hm => by cases hm) .nil
  | ok name? =>
    cases name? with
    | none => exact .nil
    | some name =>
      refine .cons (fun m refs hm => ?_) .nil
      cases hmethod : Component.method g.before name o with
      | error e => rw [hmethod] at hm; cases hm
      | ok m₀ =>
        rw [hmethod] at hm
        obtain ⟨m', hm'⟩ := method_graft hrelated hmethod
        have hrefs := referencesUnder_graft n h hplain hbody hknows
        rw [(Prod.mk.inj (Except.ok.inj hm)).2] at hrefs
        obtain ⟨refs', hrefs', hseen⟩ := exists_of_kept hrefs
        exact ⟨m', refs', by rw [hm', hrefs']; rfl, hseen⟩

mutual

/-- **The component methods are the same, with the same tags.** -/
theorem methodsUnder_graft (supply : Node → List String) : ∀ (n : Node) {names known : List String} {parent : Option String}
    {o : Node} {isBody : Bool} {outer outer' : List Scope} (known' : List String), Graft g names parent o n →
    (∀ m ∈ o.preorder, Plain g m) → (names ≠ [] → isBody = true) → Knows known outer outer' →
    List.Forall₂ FoundAgain (Component.methodsUnder g.names g.before g.stem outer known isBody parent o)
      (Component.methodsUnder supply g.after g.stem outer' known' isBody parent n)
  | .mk l' cs', names, known, parent, .mk l cs, isBody, outer, outer', known', h, hplain, hbody, hknows => by
    have hrelated : Related g (.mk l cs) (.mk l' cs') := ⟨_, _, h⟩
    have hkind : l'.kind = l.kind := hrelated.kind
    rw [Component.methodsUnder, Component.methodsUnder, hkind]
    refine List.rel_append (methodHere_graft h hplain hbody hknows _) ?_
    have hchain := isBound_chainOf h hplain hbody hknows
    cases h with
    | mk _ _ _ _ below =>
      exact methodsUnderAll_graft supply cs' _ below
        (fun m hm => hplain m (by rw [Node.preorder]; exact List.mem_cons_of_mem _ hm))
        (fun hown => contains_of_isOwnScope hown) hchain

theorem methodsUnderAll_graft (supply : Node → List String) : ∀ (cs' : List Node) {seeks seeksBody : Bool}
    {names known : List String} {parent : String} {cs : List Node} {outer outer' : List Scope} (known' : List String),
    Grafts g seeks names parent cs cs' → (∀ m ∈ Node.preorderAll cs, Plain g m) → (seeks = true → seeksBody = true) →
    Knows known outer outer' →
    List.Forall₂ FoundAgain (Component.methodsUnderAll g.names g.before g.stem outer known seeksBody parent cs)
      (Component.methodsUnderAll supply g.after g.stem outer' known' seeksBody parent cs')
  | [], _, _, _, _, _, _, _, _, _, .nil, _, _, _ => by
    rw [Component.methodsUnderAll, Component.methodsUnderAll]; exact .nil
  | c' :: cs', seeks, seeksBody, names, known, parent, _, outer, outer', known', @Grafts.keep _ _ _ _ c _ cs _ first rest, hplain,
      hseeks, hknows => by
    rw [Component.methodsUnderAll, Component.methodsUnderAll, Related.field ⟨_, _, first⟩]
    refine List.rel_append
      (methodsUnder_graft supply c' known' first
        (fun m hm => hplain m (by rw [Node.preorderAll]; exact List.mem_append_left _ hm)) (body_of_names hseeks) hknows)
      (methodsUnderAll_graft supply cs' known' rest
        (fun m hm => hplain m (by rw [Node.preorderAll]; exact List.mem_append_right _ hm)) (seeks_rest hseeks) hknows)
  | t :: cs', seeks, seeksBody, names, known, parent, _, outer, outer', known', .semicolon token rest, hplain, hseeks,
      hknows => by
    rw [Component.methodsUnderAll.eq_def supply g.after g.stem outer' known' seeksBody parent (t :: cs')]
    simp only [methodsUnder_part supply g.after g.stem outer' known' _ _ t (allParts_semicolon token), token.field,
      show ("" == "body") = false from by decide, Bool.and_false, Bool.not_false, Bool.and_true, List.nil_append]
    exact methodsUnderAll_graft supply cs' known' rest hplain hseeks hknows
  | d :: cs', seeks, seeksBody, _, known, parent, _, outer, outer', known', .declare declaration rest, hplain, hseeks,
      hknows => by
    rw [Component.methodsUnderAll.eq_def supply g.after g.stem outer' known' seeksBody parent (d :: cs')]
    simp only [declaration.methodsUnder, declaration.field, show ("" == "body") = false from by decide, Bool.and_false,
      Bool.not_false, Bool.and_true, List.nil_append]
    exact methodsUnderAll_graft supply cs' known' rest hplain hseeks hknows

end

/-! ## Collecting again -/

theorem exists_of_foundAgain : ∀ {fs fs' : List Component.Finding}, List.Forall₂ FoundAgain fs fs' →
    (∀ a ∈ fs, ∃ m, a.1 = Survey.found m) → ∃ ms, fs'.map (·.1) = ms.map Survey.found ∧
      List.Forall₂ (fun a (m : ComponentMethod × List TagReference) =>
        ∃ m₀ refs, a.1 = Survey.found (m₀, refs) ∧ List.Forall₂ (Seen a.2) refs m.2) fs ms
  | [], _, .nil, _ => ⟨[], rfl, .nil⟩
  | a :: fs, _, .cons h hs, hall => by
    obtain ⟨⟨m₀, refs⟩, ha⟩ := hall a List.mem_cons_self
    obtain ⟨m', refs', hb, hseen⟩ := h m₀ refs ha
    obtain ⟨ms, hms, hrest⟩ := exists_of_foundAgain hs (fun b hb => hall b (List.mem_cons_of_mem _ hb))
    exact ⟨(m', refs') :: ms, by rw [List.map_cons, List.map_cons, hb, hms], .cons ⟨m₀, refs, ha, hseen⟩ hrest⟩

theorem qualifies_seen {rule : Rule} {names : List String} {r r' : TagReference} (h : Seen names r r') :
    rule.qualifies r' = true ↔ rule.qualifies r = true ∧ r.name ∉ names := by
  have hasks : rule.asks r' = rule.asks r := by rw [Rule.asks, Rule.asks, h.name, h.isMemberRoot]
  rw [qualifies_iff, qualifies_iff, hasks, and_assoc]
  refine and_congr_right (fun ha => ?_)
  have hne : r.name ≠ "" := fun e => by rw [Rule.asks, e] at ha; cases ha
  rw [h.bound hne, Bool.or_eq_false_iff, List.contains_eq_mem, decide_eq_false_iff_not]

theorem not_qualifies_iff {rule : Rule} {fs : List Component.Finding} {ms : List (ComponentMethod × List TagReference)}
    (h : List.Forall₂ (fun a (m : ComponentMethod × List TagReference) =>
      ∃ m₀ refs, a.1 = Survey.found (m₀, refs) ∧ List.Forall₂ (Seen a.2) refs m.2) fs ms) :
    (∀ s ∈ steps ms, rule.qualifies s.2 = false) ↔
      ∀ a ∈ fs, ∀ m refs, a.1 = Survey.found (m, refs) → ∀ r ∈ refs, rule.qualifies r = true → r.name ∈ a.2 := by
  have hrefs : ∀ {names : List String} {refs refs' : List TagReference}, List.Forall₂ (Seen names) refs refs' →
      ((∀ r' ∈ refs', rule.qualifies r' = false) ↔ ∀ r ∈ refs, rule.qualifies r = true → r.name ∈ names) := by
    intro names refs refs' hseen
    induction hseen with
    | nil => simp
    | cons hr _ ih =>
      rw [List.forall_mem_cons, List.forall_mem_cons]
      refine and_congr ?_ ih
      rw [← Bool.not_eq_true, qualifies_seen hr, not_and_not_right]
  induction h with
  | nil => simp [steps]
  | @cons a m fs ms ha _ ih =>
    obtain ⟨m₀, refs, hfound, hseen⟩ := ha
    have hsteps : steps (m :: ms) = m.2.map (m.1, ·) ++ steps ms := List.flatMap_cons
    rw [hsteps, List.forall_mem_append, List.forall_mem_cons, List.forall_mem_map, hrefs hseen]
    refine and_congr ⟨fun h m₁ refs₁ h₁ => ?_, fun h => h m₀ refs hfound⟩ ih
    rw [← (Prod.mk.inj (Survey.found_inj (hfound.symm.trans h₁))).2]
    exact h

variable {rule : Rule} {o n : Node}

/-- **Collecting again finds nothing to do exactly where every tag that needed an alias has its name put into the body of a
component method around it.** -/
theorem collect_graft_iff (hstem : g.stem = rule.stem) (h : Graft g [] none o n) (hplain : ∀ m ∈ o.preorder, Plain g m)
    {scopes : Scopes} (hscopes : Scopes.ofTree g.before o = .ok scopes)
    (hfault : (Survey.ofTree g.before rule.stem rule.asks o).fault = none) (file : String) :
    collectSurvey rule file (Survey.ofTree g.after rule.stem rule.asks n) = .ok ⟨.empty, []⟩ ↔
      ∀ p m refs, MethodAt rule g.before scopes o p m refs → ∀ r ∈ refs, rule.qualifies r = true →
        r.name ∈ Component.suppliedOn g.names g.before g.stem [] none o p.path := by
  obtain ⟨s, s', hs, hs', hknows⟩ := ofTree_graft h hplain
  have hsame : s = scopes := Except.ok.inj (hs.symm.trans hscopes)
  subst hsame
  rw [← hstem] at hfault ⊢
  have hagain : List.Forall₂ FoundAgain (Component.methodsUnder g.names g.before g.stem [s.program] [] false none o)
      (Component.methodsUnder (fun _ => []) g.after g.stem [s'.program] [] false none n) :=
    methodsUnder_graft (fun _ => []) n [] h hplain (fun hn => absurd rfl hn) hknows
  rw [← Component.filterMap_findingAt hs g.names, ← Component.filterMap_findingAt hs' (fun _ => [])] at hagain
  have hfirst : ∀ (src : Bytes) (binds : List Nat → String → Bool) (held : List Nat → List String) (ps : List Place),
      (ps.filterMap (Component.findingAt src g.stem binds held)).map (·.1) = ps.filterMap (Survey.methodAt src g.stem binds) := by
    intro src binds held ps
    rw [List.map_filterMap]
    refine congrArg (fun f => ps.filterMap f) (funext fun p => ?_)
    unfold Component.findingAt
    cases Survey.methodAt src g.stem binds p <;> rfl
  have hall : ∀ a ∈ (o.places none []).filterMap (Component.findingAt g.before g.stem s.isBoundAt
      (Component.suppliedOn g.names g.before g.stem [] none o)), ∃ m, a.1 = Survey.found m := by
    intro a ha
    have hmem := List.mem_map_of_mem (f := (·.1)) ha
    rw [Survey.ofTree_eq hs] at hfault
    rw [hfirst, Survey.ofResults_methods _ hfault] at hmem
    obtain ⟨m, -, hm⟩ := List.mem_map.1 hmem
    exact ⟨m, hm.symm⟩
  obtain ⟨ms, hms, hseen⟩ := exists_of_foundAgain hagain hall
  rw [hfirst] at hms
  have hsurvey : Survey.ofTree g.after g.stem rule.asks n = ⟨ms, none⟩ := by
    rw [Survey.ofTree_eq hs', hms, Survey.ofResults_found]
  have hcollect : collectSurvey rule file ⟨ms, none⟩ = .ok ⟨.empty, []⟩ ↔ collect rule file ms = .ok ⟨.empty, []⟩ := by
    unfold collectSurvey
    cases collect rule file ms <;> simp
  rw [hsurvey, hcollect, collect_eq_empty_iff, not_qualifies_iff hseen]
  constructor
  · intro hsupplied p m refs hm r hr hq
    refine hsupplied (Survey.found (m, refs), Component.suppliedOn g.names g.before g.stem [] none o p.path) ?_ m refs rfl r hr hq
    exact List.mem_filterMap.2 ⟨p, hm.place, by rw [Component.findingAt, hstem, hm.here]; rfl⟩
  · intro hsupplied a ha m refs hfound r hr hq
    obtain ⟨p, hp, hpa⟩ := List.mem_filterMap.1 ha
    obtain ⟨e, he, rfl⟩ := Option.map_eq_some_iff.1 hpa
    exact hsupplied p m refs ⟨hp, by rw [← hstem, he]; exact congrArg some hfound⟩ r hr hq

end Alias
end TagAlias
