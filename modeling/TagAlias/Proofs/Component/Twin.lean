import TagAlias.Proofs.Component.Walk
import TagAlias.Proofs.Scope.Lexical
import TagAlias.Proofs.Syntax.Corresponding
/-!
# Trees that are alike but for some component methods

Two trees are twins where they agree node by node, and in the names that are read, except that component methods may stand
side by side that have nothing else in common.  Such a method gives nothing away: no declaration leaves it
(`leaving_of_hidden`), and the survey of a method around it passes it by.  So twins declare the same (`Twin.leaving`), open
the same scopes (`Twin.chainOf`) and refer to the same tags (`Twin.references`).
-/
namespace TagAlias
namespace Component

/-- The kinds of nodes with a word that tells how they declare. -/
def keywordKinds : List String := ["lexical_declaration", "for_in_statement"]

/-- Whether the text of a node below one of the given kind is read: as a bound name, as the name of a declaration or of a
method, or as a keyword. -/
def isRead (parent : Option String) (n : Node) : Bool :=
  Node.descent n.kind == .leaf
    || (n.field == "name"
      && parent.any (fun k => namingKinds.contains k || methodKinds.contains k && plainNameKinds.contains n.kind))
    || (n.field == "kind" && parent.any keywordKinds.contains)

/-- The nodes are alike where they stand, wherever that is in the two texts and whatever is below them. -/
structure Alike (src src' : Bytes) (parent : Option String) (n n' : Node) : Prop where
  kind : n'.kind = n.kind
  field : n'.field = n.field
  named : n'.named = n.named
  text : isRead parent n = true → n'.text src' = n.text src

/-- A member of a class that is a component method with a scope of its own. -/
structure Hidden (src : Bytes) (stem : String) (n : Node) : Prop where
  kind : n.kind = "method_definition"
  method : ∃ name, methodName? src stem (some "class_body") n = .ok (some name)

section

variable (src src' : Bytes) (stem : String)

mutual

/-- The trees below one of the given kind are alike but for component methods. -/
inductive Twin : Option String → Node → Node → Prop
  | mk {parent : Option String} {l l' : Label} {cs cs' : List Node} (alike : Alike src src' parent (.mk l cs) (.mk l' cs'))
      (children : Twins l.kind cs cs') : Twin parent (.mk l cs) (.mk l' cs')

/-- The same for children. -/
inductive Twins : String → List Node → List Node → Prop
  | nil {parent : String} : Twins parent [] []
  | cons {parent : String} {c c' : Node} {cs cs' : List Node} (first : Twin (some parent) c c') (rest : Twins parent cs cs') :
      Twins parent (c :: cs) (c' :: cs')
  | method {c c' : Node} {cs cs' : List Node} (before : Hidden src stem c) (after : Hidden src' stem c')
      (rest : Twins "class_body" cs cs') : Twins "class_body" (c :: cs) (c' :: cs')

end

end

variable {src src' : Bytes} {stem : String}

/-! ## Looking into twins -/

theorem Twin.alike {parent : Option String} {o n : Node} (h : Twin src src' stem parent o n) : Alike src src' parent o n := by
  cases h with
  | mk alike _ => exact alike

theorem Twin.twins {parent : Option String} {o n : Node} (h : Twin src src' stem parent o n) :
    Twins src src' stem o.kind o.children n.children := by
  cases h with
  | mk _ children => exact children

/-- Only in the body of a class methods may differ. -/
theorem Twins.forall₂ : ∀ {cs cs' : List Node} {parent : String}, Twins src src' stem parent cs cs' → parent ≠ "class_body" →
    List.Forall₂ (Twin src src' stem (some parent)) cs cs'
  | [], _, _, .nil, _ => .nil
  | _ :: _, _, _, .cons first rest, hclass => .cons first (rest.forall₂ hclass)
  | _ :: _, _, _, .method _ _ _, hclass => absurd rfl hclass

theorem Twin.children {parent : Option String} {o n : Node} (h : Twin src src' stem parent o n) (hclass : o.kind ≠ "class_body") :
    List.Forall₂ (Twin src src' stem (some o.kind)) o.children n.children :=
  h.twins.forall₂ hclass

theorem forall₂_find? {p : String} {f : String} {cs cs' : List Node} (h : List.Forall₂ (Twin src src' stem (some p)) cs cs') :
    List.Forall₂ (fun c c' => Twin src src' stem (some p) c c' ∧ c.field = f)
      (cs.find? (·.field == f)).toList (cs'.find? (·.field == f)).toList := by
  induction h with
  | nil => exact .nil
  | @cons c c' cs cs' hcc _ ih =>
    rw [List.find?_cons, List.find?_cons, hcc.alike.field]
    split
    · next hf => exact .cons ⟨hcc, beq_iff_eq.1 hf⟩ .nil
    · exact ih

theorem Twin.child? {parent : Option String} {o n : Node} (h : Twin src src' stem parent o n) (hclass : o.kind ≠ "class_body")
    (f : String) : List.Forall₂ (fun c c' => Twin src src' stem (some o.kind) c c' ∧ c.field = f)
      (o.child? f).toList (n.child? f).toList :=
  forall₂_find? (h.children hclass)

theorem text_of_naming {parent : String} {o n : Node} (h : Twin src src' stem (some parent) o n) (hname : o.field = "name")
    (hparent : namingKinds.contains parent = true) : n.text src' = o.text src :=
  h.alike.text (by simp [isRead, hname, List.contains_iff_mem.1 hparent])

/-- **Twins correspond, with the same texts where these are read.** -/
theorem corresponds : Corresponds (fun o n => ∃ parent, Twin src src' stem parent o n) (fun o n => n.text src' = o.text src) where
  kind := fun ⟨_, h⟩ => h.alike.kind
  child := fun ⟨_, h⟩ hclass f _ => (h.child? hclass f).imp (fun _ _ hc => ⟨_, hc.1⟩)
  namedChildren := fun ⟨_, h⟩ hloose =>
    (List.rel_filter (fun _ _ (hc : Twin src src' stem _ _ _) => by simp only [hc.alike.named])
      (h.children (fun e => hloose (by rw [e]; decide)))).imp (fun _ _ hc => ⟨_, hc⟩)
  leaf := fun ⟨_, h⟩ hleaf => h.alike.text (by simp [isRead, hleaf])
  name := fun ⟨_, h⟩ hkind =>
    (h.child? (fun e => by rw [e] at hkind; exact absurd hkind (by decide)) "name").imp
      (fun _ _ hc => text_of_naming hc.1 hc.2 hkind)

/-- A method among parameters binds none. -/
theorem bindingLeaves_of_hidden {c : Node} (h : Hidden src stem c) : c.bindingLeaves = [] := by
  cases c with
  | mk l cs =>
    have hkind : l.kind = "method_definition" := h.kind
    rw [Node.bindingLeaves, hkind]
    rfl

theorem Twins.patterns : ∀ {cs cs' : List Node} {parent : String}, Twins src src' stem parent cs cs' →
    List.Forall₂ (fun o n => n.text src' = o.text src) ((cs.filter (·.named)).flatMap Node.bindingLeaves)
      ((cs'.filter (·.named)).flatMap Node.bindingLeaves)
  | [], _, _, .nil => .nil
  | _ :: _, _, _, .cons first rest => by
    have hfirst := corresponds.bindingLeaves ⟨_, first⟩
    rw [List.filter_cons, List.filter_cons, first.alike.named]
    split
    · rw [List.flatMap_cons, List.flatMap_cons]
      exact List.rel_append hfirst rest.patterns
    · exact rest.patterns
  | _ :: _, _, _, .method before after rest => by
    have hnone : ∀ {d : Node} {ds : List Node}, d.bindingLeaves = [] →
        ((d :: ds).filter (·.named)).flatMap Node.bindingLeaves = (ds.filter (·.named)).flatMap Node.bindingLeaves := by
      intro d ds hd
      rw [List.filter_cons]
      split
      · rw [List.flatMap_cons, hd, List.nil_append]
      · rfl
    rw [hnone (bindingLeaves_of_hidden before), hnone (bindingLeaves_of_hidden after)]
    exact rest.patterns

theorem Twin.parameters {parent : Option String} {o n : Node} (h : Twin src src' stem parent o n) (hclass : o.kind ≠ "class_body") :
    List.Forall₂ (fun o n => n.text src' = o.text src) ((o.child? "parameters").toList.flatMap Lexical.patterns)
      ((n.child? "parameters").toList.flatMap Lexical.patterns) :=
  List.rel_flatMap (h.child? hclass "parameters") (fun _ _ hc => hc.1.twins.patterns)

theorem Twin.keyword? {parent : Option String} {o n : Node} (h : Twin src src' stem parent o n)
    (hkind : keywordKinds.contains o.kind = true) : Lexical.keyword? src' n = Lexical.keyword? src o := by
  unfold Lexical.keyword?
  have hclass : o.kind ≠ "class_body" := fun e => by rw [e] at hkind; exact absurd hkind (by decide)
  rcases Forall₂.cases_toList (h.child? hclass "kind") with ⟨ho, hn⟩ | ⟨x, y, ho, hn, hxy, hfield⟩
  · rw [ho, hn]; rfl
  · have htext := hxy.alike.text (by simp [isRead, hfield, List.contains_iff_mem.1 hkind])
    rw [ho, hn, Option.map_some, Option.map_some, Lexical.word, Lexical.word, htext]

/-- **Twins are component methods of the same name, or both are none.** -/
theorem Twin.methodName? {parent : Option String} {o n : Node} (h : Twin src src' stem parent o n) :
    methodName? src' stem parent n = methodName? src stem parent o := by
  unfold Component.methodName?
  rw [h.alike.kind]
  split
  · next hmethod =>
    have hkind : methodKinds.contains o.kind = true := (Bool.and_eq_true_iff.1 hmethod).1
    have hclass : o.kind ≠ "class_body" := fun e => by rw [e] at hkind; exact absurd hkind (by decide)
    rcases Forall₂.cases_toList (h.child? hclass "name") with ⟨ho, hn⟩ | ⟨x, y, ho, hn, hxy, hfield⟩
    · rw [ho, hn]
    · rw [ho, hn]
      simp only [hxy.alike.kind]
      split
      · next hplain =>
        rw [hxy.alike.text (by simp [isRead, hfield, List.contains_iff_mem.1 hkind, List.contains_iff_mem.1 hplain])]
      · rfl
  · rfl

/-! ## Declarations -/

theorem map_declaration_eq {ms ms' : List Lexical.Making}
    (h : List.Forall₂ (SameMaking (fun o n => n.text src' = o.text src)) ms ms') :
    ms'.map (Lexical.Making.declaration src') = ms.map (Lexical.Making.declaration src) := by
  induction h with
  | nil => rfl
  | cons hm _ ih =>
    rw [List.map_cons, List.map_cons, ih, Lexical.Making.declaration, Lexical.Making.declaration, hm.reach, hm.kind,
      Lexical.word, Lexical.word, hm.leaf]

theorem readable_twin {parent : Option String} {o n : Node} (h : Twin src src' stem parent o n)
    (hread : ∀ m ∈ o.preorder, Lexical.Readable src m) (hread' : ∀ m ∈ n.preorder, Lexical.Readable src' m) (isBody : Bool) :
    Scope.readable src' isBody n = Scope.readable src isBody o := by
  rw [Lexical.readable_eq (fun m hm => hread m (Lexical.readNodes_subset_preorder hm)),
    Lexical.readable_eq (fun m hm => hread' m (Lexical.readNodes_subset_preorder hm))]
  exact map_declaration_eq (corresponds.makings ⟨parent, h⟩
    (fun hk => h.parameters (fun e => by rw [e] at hk; exact absurd hk (by decide))) h.keyword? isBody)

theorem opens_twin {parent : Option String} {o n : Node} (h : Twin src src' stem parent o n) (isBody : Bool) :
    Scope.opens isBody n = Scope.opens isBody o := by
  unfold Scope.opens
  rw [h.alike.kind]
  by_cases hclass : o.kind = "class_body"
  · rw [hclass]; rfl
  · have hname : (n.child? "name").map (fun _ => "class") = (o.child? "name").map (fun _ => "class") := by
      rcases Forall₂.cases_toList (h.child? hclass "name") with ⟨ho, hn⟩ | ⟨x, y, ho, hn, -⟩
      · rw [ho, hn]
      · rw [ho, hn]; rfl
    rw [hname]

/-- **No declaration leaves a method.**  It declares its parameters for itself, and its scope takes the rest. -/
theorem leaving_of_hidden {c : Node} (h : Hidden src stem c) (hread : ∀ m ∈ c.preorder, Lexical.Readable src m) (isBody : Bool) :
    (Scope.analyze src isBody c).1 = [] := by
  cases c with
  | mk l cs =>
    have hkind : l.kind = "method_definition" := h.kind
    have hfunction : Scope.functionKinds.contains (Node.mk l cs).kind = true := by
      rw [show (Node.mk l cs).kind = "method_definition" from hkind]; decide
    have hhere : (Scope.readable src isBody (.mk l cs)).filter (·.reach != .own) = [] := by
      rw [Lexical.readable_eq (fun m hm => hread m (Lexical.readNodes_subset_preorder hm)),
        Lexical.makings_function hfunction, Lexical.row, Lexical.row, h.kind, List.filter_eq_nil_iff]
      intro d hd
      simp only [Scope.declaredFunctionKinds, Scope.namedFunctionKinds, List.mem_map] at hd
      obtain ⟨m, hm, rfl⟩ := hd
      obtain ⟨leaf, -, rfl⟩ : ∃ leaf ∈ Lexical.parameters (.mk l cs), (⟨.own, leaf, "param"⟩ : Lexical.Making) = m := by
        simpa using hm
      simp [Lexical.Making.declaration]
    have hbelow : (Scope.analyzeAll src (Scope.functionKinds.contains l.kind) cs).1.filter (!Scope.catches "function" ·) = [] := by
      rw [List.filter_eq_nil_iff]
      intro d hd
      have hreach := Lexical.reach_of_leavingAll src _ cs d hd
      cases hr : d.reach with
      | own => exact absurd hr hreach
      | around => simp [Scope.catches, hr]
      | variable_ => simp [Scope.catches, hr]
    rw [Scope.analyze, Scopes.opens_function hfunction]
    simp only [hhere, hbelow, List.append_nil]

theorem preorder_of_child {l : Label} {cs : List Node} {P : Node → Prop} (h : ∀ m ∈ (Node.mk l cs).preorder, P m) :
    ∀ m ∈ Node.preorderAll cs, P m :=
  fun m hm => h m (by rw [Node.preorder]; exact List.mem_cons_of_mem _ hm)

theorem preorder_of_first {c : Node} {cs : List Node} {P : Node → Prop} (h : ∀ m ∈ Node.preorderAll (c :: cs), P m) :
    ∀ m ∈ c.preorder, P m :=
  fun m hm => h m (by rw [Node.preorderAll]; exact List.mem_append_left _ hm)

theorem preorder_of_rest {c : Node} {cs : List Node} {P : Node → Prop} (h : ∀ m ∈ Node.preorderAll (c :: cs), P m) :
    ∀ m ∈ Node.preorderAll cs, P m :=
  fun m hm => h m (by rw [Node.preorderAll]; exact List.mem_append_right _ hm)

/-- The body of a class is no function, so no member of it is the body of one. -/
theorem seeks_of_class {parent : String} : parent = "class_body" → Scope.functionKinds.contains parent = false := by
  rintro rfl; decide

mutual

/-- **The same declarations leave twins.** -/
theorem Twin.leaving : ∀ {n : Node} {parent : Option String} {o : Node} (isBody : Bool), Twin src src' stem parent o n →
    (∀ m ∈ o.preorder, Lexical.Readable src m) → (∀ m ∈ n.preorder, Lexical.Readable src' m) →
    (Scope.analyze src' isBody n).1 = (Scope.analyze src isBody o).1
  | .mk l' cs', parent, .mk l cs, isBody, h, hread, hread' => by
    have hkind : l'.kind = l.kind := h.alike.kind
    have hbelow := @Twins.leaving cs' l.kind cs (Scope.functionKinds.contains l.kind) h.twins seeks_of_class
      (preorder_of_child hread) (preorder_of_child hread')
    rw [Scope.analyze, Scope.analyze, opens_twin h isBody, readable_twin h hread hread' isBody, hkind]
    cases Scope.opens isBody (.mk l cs) with
    | none => simp only [hbelow]
    | some kind => simp only [hbelow]

theorem Twins.leaving : ∀ {cs' : List Node} {parent : String} {cs : List Node} (seeksBody : Bool), Twins src src' stem parent cs cs' →
    (parent = "class_body" → seeksBody = false) → (∀ m ∈ Node.preorderAll cs, Lexical.Readable src m) →
    (∀ m ∈ Node.preorderAll cs', Lexical.Readable src' m) →
    (Scope.analyzeAll src' seeksBody cs').1 = (Scope.analyzeAll src seeksBody cs).1
  | [], _, _, _, .nil, _, _, _ => rfl
  | c' :: cs', parent, c :: cs, seeksBody, .cons first rest, hseeks, hread, hread' => by
    rw [Scope.analyzeAll, Scope.analyzeAll, first.alike.field]
    exact congrArg₂ (· ++ ·) (Twin.leaving _ first (preorder_of_first hread) (preorder_of_first hread'))
      (Twins.leaving _ rest (fun e => by rw [hseeks e]; rfl) (preorder_of_rest hread) (preorder_of_rest hread'))
  | c' :: cs', _, c :: cs, seeksBody, .method before after rest, hseeks, hread, hread' => by
    rw [Scope.analyzeAll, Scope.analyzeAll, hseeks rfl]
    exact congrArg₂ (· ++ ·)
      ((leaving_of_hidden after (preorder_of_first hread') _).trans (leaving_of_hidden before (preorder_of_first hread) _).symm)
      (Twins.leaving _ rest (fun _ => rfl) (preorder_of_rest hread) (preorder_of_rest hread'))

end

/-! ## Scopes -/

theorem scope_twin {parent : Option String} {o n : Node} (h : Twin src src' stem parent o n)
    (hread : ∀ m ∈ o.preorder, Lexical.Readable src m) (hread' : ∀ m ∈ n.preorder, Lexical.Readable src' m) (isBody : Bool) :
    (Scope.analyze src' isBody n).2.scope = (Scope.analyze src isBody o).2.scope := by
  obtain ⟨l, cs⟩ := o
  obtain ⟨l', cs'⟩ := n
  have hkind : l'.kind = l.kind := h.alike.kind
  have hbelow : (Scope.analyzeAll src' (Scope.functionKinds.contains l.kind) cs').1 =
      (Scope.analyzeAll src (Scope.functionKinds.contains l.kind) cs).1 :=
    h.twins.leaving _ seeks_of_class (preorder_of_child hread) (preorder_of_child hread')
  rw [Scope.analyze, Scope.analyze, opens_twin h isBody, readable_twin h hread hread' isBody, hkind]
  cases Scope.opens isBody (.mk l cs) with
  | none => rfl
  | some kind => simp only [hbelow, ScopeTree.scope]

/-- **At twins the same scopes are open.** -/
theorem Twin.chainOf {parent : Option String} {o n : Node} (h : Twin src src' stem parent o n)
    (hread : ∀ m ∈ o.preorder, Lexical.Readable src m) (hread' : ∀ m ∈ n.preorder, Lexical.Readable src' m)
    (outer : List Scope) (isBody : Bool) : chainOf src' outer isBody n = chainOf src outer isBody o := by
  rw [Component.chainOf, Component.chainOf, scope_twin h hread hread' isBody]

/-- At twins that stand at the same place among others the analysis goes on alike. -/
theorem Twins.getElem?_analyzeAll : ∀ {cs' : List Node} {parent : String} {cs : List Node} (seeksBody : Bool) {i : Nat}
    {c c' : Node}, Twins src src' stem parent cs cs' → (parent = "class_body" → seeksBody = false) → cs[i]? = some c → cs'[i]? = some c' →
    ∃ isBody, (Scope.analyzeAll src seeksBody cs).2[i]? = some (Scope.analyze src isBody c).2 ∧
      (Scope.analyzeAll src' seeksBody cs').2[i]? = some (Scope.analyze src' isBody c').2
  | [], _, _, _, _, _, _, .nil, _, hc, _ => by simp at hc
  | d' :: cs', _, d :: cs, seeksBody, 0, c, c', h, hseeks, hc, hc' => by
    rw [List.getElem?_cons_zero, Option.some.injEq] at hc hc'
    subst hc hc'
    rw [Scope.analyzeAll, Scope.analyzeAll]
    cases h with
    | cons first _ => exact ⟨_, rfl, by rw [first.alike.field]; rfl⟩
    | method _ _ _ => exact ⟨false, by rw [hseeks rfl]; rfl, by rw [hseeks rfl]; rfl⟩
  | d' :: cs', _, d :: cs, seeksBody, i + 1, c, c', h, hseeks, hc, hc' => by
    rw [List.getElem?_cons_succ] at hc hc'
    rw [Scope.analyzeAll, Scope.analyzeAll]
    cases h with
    | cons first rest =>
      rw [first.alike.field]
      exact rest.getElem?_analyzeAll _ (fun e => by rw [hseeks e]; rfl) hc hc'
    | method _ _ rest =>
      rw [hseeks rfl]
      exact rest.getElem?_analyzeAll _ (fun _ => rfl) hc hc'

/-! ## References -/

structure SameReference (r r' : TagReference) : Prop where
  name : r'.name = r.name
  isMemberRoot : r'.isMemberRoot = r.isMemberRoot
  bound : r'.bound = r.bound

/-- The same where both can be told. -/
def SameResult (e e' : Except Failure TagReference) : Prop := ∀ r r', e = .ok r → e' = .ok r' → SameReference r r'

theorem tagReferences_twin {parent : Option String} {o n : Node} (h : Twin src src' stem parent o n) (chain : List Scope) :
    List.Forall₂ SameResult (tagReferences src (fun _ => Scope.isBound chain) [] o)
      (tagReferences src' (fun _ => Scope.isBound chain) [] n) := by
  unfold tagReferences
  rcases Forall₂.cases_toList (corresponds.tagRoot ⟨parent, h⟩) with ⟨ho, hn⟩ | ⟨⟨x, r⟩, ⟨x', r'⟩, ho, hn, ⟨_, hxx⟩, htext⟩
  · rw [ho, hn]; exact .nil
  · rw [ho, hn]
    refine .cons ?_ .nil
    intro t t' ht ht'
    cases hat : Position.ofOffset src r.start with
    | error f => simp only [hat] at ht; cases ht
    | ok at_ =>
      cases hat' : Position.ofOffset src' r'.start with
      | error f => simp only [hat'] at ht'; cases ht'
      | ok at_' =>
        cases hs : r.text src with
        | error f => simp only [hat, hs] at ht; cases ht
        | ok s =>
          have hs' : r'.text src' = .ok s := htext.trans hs
          simp only [hat, hs] at ht
          simp only [hat', hs'] at ht'
          cases ht
          cases ht'
          exact ⟨rfl, by rw [hxx.alike.kind], rfl⟩

mutual

/-- **Twins refer to the same tags.** -/
theorem Twin.references : ∀ {n : Node} {parent : Option String} {o : Node} (outer : List Scope) (isBody : Bool),
    Twin src src' stem parent o n →
    (∀ m ∈ o.preorder, Lexical.Readable src m) → (∀ m ∈ n.preorder, Lexical.Readable src' m) →
    List.Forall₂ SameResult (referencesUnder src stem outer isBody o) (referencesUnder src' stem outer isBody n)
  | .mk l' cs', parent, .mk l cs, outer, isBody, h, hread, hread' => by
    have hkind : l'.kind = l.kind := h.alike.kind
    rw [referencesUnder, referencesUnder, h.chainOf hread hread' outer isBody, hkind]
    exact List.rel_append (tagReferences_twin h _)
      (@Twins.references cs' _ cs _ _ h.twins seeks_of_class (preorder_of_child hread) (preorder_of_child hread'))

theorem Twins.references : ∀ {cs' : List Node} {parent : String} {cs : List Node} {seeksBody : Bool} (outer : List Scope),
    Twins src src' stem parent cs cs' → (parent = "class_body" → seeksBody = false) →
    (∀ m ∈ Node.preorderAll cs, Lexical.Readable src m) → (∀ m ∈ Node.preorderAll cs', Lexical.Readable src' m) →
    List.Forall₂ SameResult (referencesUnderAll src stem outer parent seeksBody cs)
      (referencesUnderAll src' stem outer parent seeksBody cs')
  | [], _, _, _, _, .nil, _, _, _ => by rw [referencesUnderAll, referencesUnderAll]; exact .nil
  | c' :: cs', parent, c :: cs, seeksBody, outer, .cons first rest, hseeks, hread, hread' => by
    rw [referencesUnderAll, referencesUnderAll, first.alike.field, first.methodName?]
    refine List.rel_append ?_ (Twins.references outer rest (fun e => by rw [hseeks e]; rfl) (preorder_of_rest hread)
      (preorder_of_rest hread'))
    cases Component.methodName? src stem (some parent) c with
    | error f => exact .cons (fun r r' hr _ => by cases hr) .nil
    | ok found =>
      cases found with
      | some name => exact .nil
      | none => exact Twin.references outer _ first (preorder_of_first hread) (preorder_of_first hread')
  | c' :: cs', _, c :: cs, seeksBody, outer, .method before after rest, hseeks, hread, hread' => by
    obtain ⟨name, hname⟩ := before.method
    obtain ⟨name', hname'⟩ := after.method
    rw [referencesUnderAll, referencesUnderAll, hname, hname', hseeks rfl]
    exact Twins.references outer rest (fun _ => rfl) (preorder_of_rest hread) (preorder_of_rest hread')

end

end Component
end TagAlias
