import TagAlias.Proofs.Alias.Methods
import TagAlias.Proofs.Component.Attribution
import TagAlias.Proofs.Component.Twin
/-!
# Methods do not disturb each other

What stands in one component method makes no difference to the others, not even to those around it: where two modules are
the same but for one method (`SameBeside`), every other method has the same tags that need aliases
(`methods_undisturbed`).
-/
namespace TagAlias
namespace Component

instance (src src' : Bytes) (parent : Option String) (n n' : Node) : Decidable (Alike src src' parent n n') :=
  decidable_of_iff (n'.kind = n.kind ∧ n'.field = n.field ∧ n'.named = n.named ∧
      (isRead parent n = true → n'.text src' = n.text src))
    ⟨fun ⟨h₁, h₂, h₃, h₄⟩ => ⟨h₁, h₂, h₃, h₄⟩, fun ⟨h₁, h₂, h₃, h₄⟩ => ⟨h₁, h₂, h₃, h₄⟩⟩

/-- The places of a tree but for the end of the path and what is below. -/
def outside (path : List Nat) (root : Node) : List Place :=
  (root.places none []).filter (fun p => !path.isPrefixOf p.path)

/-- The modules are the same outside, up to the offsets at which things stand. -/
def SameBeside (src src' : Bytes) (path : List Nat) (root root' : Node) : Prop :=
  List.Forall₂ (fun p p' => p'.path = p.path ∧ p'.parent = p.parent ∧ Alike src src' p.parent p.node p'.node)
    (outside path root) (outside path root')

instance (src src' : Bytes) (path : List Nat) (root root' : Node) : Decidable (SameBeside src src' path root root') :=
  inferInstanceAs (Decidable (List.Forall₂ _ _ _))

variable {src src' : Bytes} {stem : String} {root root' : Node} {path : List Nat}

/-! ## Places outside -/

theorem mem_outside_iff (p : Place) : p ∈ outside path root ↔ root.placeAt? none [] p.path = some p ∧ ¬ path <+: p.path := by
  rw [outside, List.mem_filter, Bool.not_eq_true', ← Bool.not_eq_true, List.isPrefixOf_iff_prefix]
  refine and_congr_left' ⟨Node.placeAt?_of_mem_places, fun h => (Node.mem_places_iff none [] root p).2 ⟨_, h⟩⟩

theorem path_of_place {q : List Nat} {p : Place} (h : root.placeAt? none [] q = some p) : p.path = q :=
  Node.path_of_placeAt? q h

theorem SameBeside.after {q : List Nat} {p : Place} (h : SameBeside src src' path root root') (hout : ¬ path <+: q)
    (hp : root.placeAt? none [] q = some p) :
    ∃ p', root'.placeAt? none [] q = some p' ∧ p'.parent = p.parent ∧ Alike src src' p.parent p.node p'.node := by
  have hq := path_of_place hp
  have hmem : p ∈ outside path root := (mem_outside_iff p).2 (by rw [hq]; exact ⟨hp, hout⟩)
  obtain ⟨p', hp', hpath, hparent, halike⟩ := Survey.exists_mem_of_forall₂ h.flip hmem
  obtain ⟨hplace, -⟩ := (mem_outside_iff p').1 hp'
  rw [hpath, hq] at hplace
  exact ⟨p', hplace, hparent, halike⟩

theorem SameBeside.before {q : List Nat} {p' : Place} (h : SameBeside src src' path root root') (hout : ¬ path <+: q)
    (hp' : root'.placeAt? none [] q = some p') : ∃ p, root.placeAt? none [] q = some p := by
  have hq := path_of_place hp'
  have hmem : p' ∈ outside path root' := (mem_outside_iff p').2 (by rw [hq]; exact ⟨hp', hout⟩)
  obtain ⟨p, hp, hpath, -, -⟩ := Survey.exists_mem_of_forall₂ h hmem
  obtain ⟨hplace, -⟩ := (mem_outside_iff p).1 hp
  rw [← hpath, hq] at hplace
  exact ⟨p, hplace⟩

/-- The place of a child. -/
theorem placeAt?_child {q : List Nat} {parent : Option String} {n : Node} (h : root.placeAt? none [] q = some ⟨parent, q, n⟩)
    (i : Nat) : root.placeAt? none [] (q ++ [i]) = n.children[i]?.map (⟨some n.kind, q ++ [i], ·⟩) := by
  rw [Node.placeAt?_append q [i] h, Node.placeAt?_cons]
  cases n.children[i]? with
  | none => rfl
  | some c => rfl

/-! ## Modules that are the same outside are twins -/

theorem twins_of_getElem? {parent : String} : ∀ {cs cs' : List Node},
    (∀ i : Nat, (cs[i]? = none ∧ cs'[i]? = none) ∨ ∃ c c', cs[i]? = some c ∧ cs'[i]? = some c' ∧
      (Twin src src' stem (some parent) c c' ∨ parent = "class_body" ∧ Hidden src stem c ∧ Hidden src' stem c')) →
    Twins src src' stem parent cs cs'
  | [], cs', h => by
    cases cs' with
    | nil => exact .nil
    | cons c' cs' =>
      rcases h 0 with ⟨-, hnone⟩ | ⟨_, _, hsome, -⟩
      · simp at hnone
      · simp at hsome
  | c :: cs, [], h => by
    rcases h 0 with ⟨hnone, -⟩ | ⟨_, _, -, hsome, -⟩
    · simp at hnone
    · simp at hsome
  | c :: cs, c' :: cs', h => by
    have hrest : Twins src src' stem parent cs cs' := twins_of_getElem? (fun i => h (i + 1))
    rcases h 0 with ⟨hnone, -⟩ | ⟨d, d', hd, hd', htwin | ⟨rfl, hhidden, hhidden'⟩⟩
    · simp at hnone
    · rw [List.getElem?_cons_zero, Option.some.injEq] at hd hd'
      subst hd hd'
      exact .cons htwin hrest
    · rw [List.getElem?_cons_zero, Option.some.injEq] at hd hd'
      subst hd hd'
      exact .method hhidden hhidden' hrest

/-- At the end of the path stands a component method with a scope of its own. -/
structure HiddenAt (src : Bytes) (stem : String) (path : List Nat) (root : Node) (p : Place) : Prop where
  place : root.placeAt? none [] path = some p
  parent : p.parent = some "class_body"
  hidden : Hidden src stem p.node

theorem HiddenAt.of_isMethod {p : Place} {name : String} (hp : root.placeAt? none [] path = some p)
    (hmethod : IsMethod src stem p name) (hkind : p.node.kind = "method_definition") : HiddenAt src stem path root p := by
  have hname := methodName?_eq_some_iff.2 hmethod
  rw [hmethod.parent] at hname
  exact ⟨hp, hmethod.parent, hkind, name, hname⟩

theorem HiddenAt.child {p : Place} (h : HiddenAt src stem path root p) {q : List Nat} {i : Nat} (hpath : path = q ++ [i])
    {parent : Option String} {n : Node} (hn : root.placeAt? none [] q = some ⟨parent, q, n⟩) :
    n.kind = "class_body" ∧ ∃ c, n.children[i]? = some c ∧ Hidden src stem c := by
  have hplace := h.place
  rw [hpath, placeAt?_child hn i] at hplace
  obtain ⟨c, hc, rfl⟩ := Option.map_eq_some_iff.1 hplace
  exact ⟨Option.some.inj h.parent, c, hc, h.hidden⟩

/-- **At each place outside stand twins.** -/
theorem twin_at (h : SameBeside src src' path root root') {p p' : Place} (hp : HiddenAt src stem path root p)
    (hp' : HiddenAt src' stem path root' p') : ∀ (n n' : Node) (parent parent' : Option String) (q : List Nat),
    ¬ path <+: q → root.placeAt? none [] q = some ⟨parent, q, n⟩ → root'.placeAt? none [] q = some ⟨parent', q, n'⟩ →
    Twin src src' stem parent n n' := by
  intro n
  refine Node.induct (P := fun n => ∀ (n' : Node) (parent parent' : Option String) (q : List Nat), ¬ path <+: q →
    root.placeAt? none [] q = some ⟨parent, q, n⟩ → root'.placeAt? none [] q = some ⟨parent', q, n'⟩ →
    Twin src src' stem parent n n') ?_ n
  rintro l cs ih ⟨l', cs'⟩ parent parent' q hout hn hn'
  obtain ⟨_, hplace', -, halike⟩ := h.after hout hn
  rw [hn', Option.some.injEq] at hplace'
  subst hplace'
  refine .mk halike (twins_of_getElem? (fun i => ?_))
  by_cases hbelow : path <+: q ++ [i]
  · have hpath : path = q ++ [i] := (List.prefix_concat_iff.1 hbelow).resolve_right hout
    obtain ⟨hclass, c, hc, hhidden⟩ := hp.child hpath hn
    obtain ⟨-, c', hc', hhidden'⟩ := hp'.child hpath hn'
    exact .inr ⟨c, c', hc, hc', .inr ⟨hclass, hhidden, hhidden'⟩⟩
  · have hchild := placeAt?_child hn i
    have hchild' := placeAt?_child hn' i
    simp only [Node.children] at hchild hchild'
    cases hc : cs[i]? with
    | none =>
      cases hc' : cs'[i]? with
      | none => exact .inl ⟨rfl, rfl⟩
      | some c' =>
        rw [hc'] at hchild'
        obtain ⟨_, hplace⟩ := h.before hbelow hchild'
        rw [hchild, hc] at hplace
        cases hplace
    | some c =>
      rw [hc] at hchild
      obtain ⟨_, hplace', -, -⟩ := h.after hbelow hchild
      rw [hchild'] at hplace'
      obtain ⟨c', hc', -⟩ := Option.map_eq_some_iff.1 hplace'
      rw [hc'] at hchild'
      exact .inr ⟨c, c', rfl, hc', .inl (ih c (List.mem_of_getElem? hc) c' _ _ _ hbelow hchild hchild')⟩

/-! ## The scopes around a place -/

theorem readable_at {src : Bytes} {root : Node} (hread : ∀ m ∈ root.preorder, Lexical.Readable src m) {q : List Nat} {p : Place}
    (hp : root.placeAt? none [] q = some p) : ∀ m ∈ p.node.preorder, Lexical.Readable src m :=
  fun m hm => hread m (Node.preorder_trans root (Node.mem_preorder_of_at? q (Node.at?_of_placeAt? q hp)) hm)

section

variable (h : SameBeside src src' path root root') {p p' : Place} (hp : HiddenAt src stem path root p)
  (hp' : HiddenAt src' stem path root' p') (hread : ∀ m ∈ root.preorder, Lexical.Readable src m)
  (hread' : ∀ m ∈ root'.preorder, Lexical.Readable src' m)

include h hp hp' hread hread'

/-- **Around a place outside the same scopes are open.** -/
theorem exists_around {binds binds' : List Nat → String → Bool} : ∀ (rel q : List Nat) (outer : List Scope) (isBody : Bool)
    (n n' : Node) (parent parent' : Option String), ¬ path <+: q ++ rel →
    root.placeAt? none [] q = some ⟨parent, q, n⟩ → root'.placeAt? none [] q = some ⟨parent', q, n'⟩ →
    BindsFrom binds outer q (Scope.analyze src isBody n).2 → BindsFrom binds' outer q (Scope.analyze src' isBody n').2 →
    ∀ r r', root.placeAt? none [] (q ++ rel) = some r → root'.placeAt? none [] (q ++ rel) = some r' →
    ∃ outer isBody, BindsFrom binds outer (q ++ rel) (Scope.analyze src isBody r.node).2 ∧
      BindsFrom binds' outer (q ++ rel) (Scope.analyze src' isBody r'.node).2
  | [], q, outer, isBody, n, n', parent, parent', _, hn, hn', hbinds, hbinds', r, r', hr, hr' => by
    rw [List.append_nil] at hr hr' ⊢
    rw [hn, Option.some.injEq] at hr
    rw [hn', Option.some.injEq] at hr'
    subst hr hr'
    exact ⟨outer, isBody, hbinds, hbinds'⟩
  | i :: rel, q, outer, isBody, .mk l cs, .mk l' cs', parent, parent', hout, hn, hn', hbinds, hbinds', r, r', hr, hr' => by
    have hq : ¬ path <+: q := fun hpre => hout (hpre.trans (List.prefix_append _ _))
    have htwin := twin_at h hp hp' _ _ _ _ q hq hn hn'
    have hkind : l'.kind = l.kind := htwin.alike.kind
    have hsplit : q ++ i :: rel = q ++ [i] ++ rel := by rw [List.append_assoc]; rfl
    have hchild := placeAt?_child hn i
    have hchild' := placeAt?_child hn' i
    simp only [Node.children] at hchild hchild'
    cases hc : cs[i]? with
    | none =>
      rw [Node.placeAt?_append q _ hn, Node.placeAt?_cons] at hr
      simp only [Node.children, hc] at hr
      cases hr
    | some c =>
      cases hc' : cs'[i]? with
      | none =>
        rw [Node.placeAt?_append q _ hn', Node.placeAt?_cons] at hr'
        simp only [Node.children, hc'] at hr'
        cases hr'
      | some c' =>
        rw [hc] at hchild
        rw [hc'] at hchild'
        -- One step further down: the same scopes are open at twins, so the chain around the children is one.
        obtain ⟨b, hb, hb'⟩ := htwin.twins.getElem?_analyzeAll (Scope.functionKinds.contains l.kind) seeks_of_class hc hc'
        have hbinds' := hbinds'.child i _ (by rw [hkind]; exact hb')
        rw [htwin.chainOf (readable_at hread hn) (readable_at hread' hn') outer isBody] at hbinds'
        rw [hsplit] at hout hr hr' ⊢
        exact exists_around rel (q ++ [i]) _ b c c' _ _ hout hchild hchild' (hbinds.child i _ hb) hbinds' r r' hr hr'

end

/-- A tree's scopes bind what is declared in them. -/
theorem bindsFrom_root {s : Scopes} (h : Scopes.ofTree src root = .ok s) :
    s.program = (Scope.empty "program").declareAll (Scope.asBindings (Scope.analyze src false root).1) ∧
      BindsFrom s.isBoundAt [s.program] [] (Scope.analyze src false root).2 := by
  unfold Scopes.ofTree at h
  split at h
  · cases h
  · rw [← Except.ok.inj h]
    exact ⟨rfl, fun rel x => by rw [List.nil_append]; rfl⟩

/-- **A method outside refers to the same tags.** -/
theorem references_outside (h : SameBeside src src' path root root') {p p' : Place} (hp : HiddenAt src stem path root p)
    (hp' : HiddenAt src' stem path root' p') (hread : ∀ m ∈ root.preorder, Lexical.Readable src m)
    (hread' : ∀ m ∈ root'.preorder, Lexical.Readable src' m) {s s' : Scopes} (hs : Scopes.ofTree src root = .ok s)
    (hs' : Scopes.ofTree src' root' = .ok s') {q : List Nat} (hout : ¬ path <+: q) {r r' : Place}
    (hr : root.placeAt? none [] q = some r) (hr' : root'.placeAt? none [] q = some r') :
    List.Forall₂ SameResult (references src stem s.isBoundAt r.path r.node) (references src' stem s'.isBoundAt r'.path r'.node) := by
  obtain ⟨hprogram, hbinds⟩ := bindsFrom_root hs
  obtain ⟨hprogram', hbinds'⟩ := bindsFrom_root hs'
  have hroot : ¬ path <+: [] := fun hpre => hout (hpre.trans List.nil_prefix)
  have htwin := twin_at h hp hp' root root' none none [] hroot (Node.placeAt?_nil ..) (Node.placeAt?_nil ..)
  have hsame : s'.program = s.program := by rw [hprogram, hprogram', htwin.leaving false hread hread']
  rw [hsame] at hbinds'
  obtain ⟨outer, isBody, hhere, hhere'⟩ := exists_around h hp hp' hread hread' q [] [s.program] false root root' none none hout
    (Node.placeAt?_nil ..) (Node.placeAt?_nil ..) hbinds hbinds' r r' hr hr'
  rw [List.nil_append] at hhere hhere'
  obtain ⟨parent, _, n⟩ := r
  obtain ⟨parent', _, n'⟩ := r'
  obtain rfl := path_of_place hr
  obtain rfl := path_of_place hr'
  rw [references_eq_under src stem _ outer _ isBody n hhere, references_eq_under src' stem _ outer _ isBody n' hhere']
  exact (twin_at h hp hp' n n' parent parent' _ hout hr hr').references outer isBody (readable_at hread hr)
    (readable_at hread' hr')

end Component

namespace Alias

open Component (SameBeside IsMethod HiddenAt SameReference SameResult)

variable {rule : Rule} {src src' : Bytes} {root root' : Node} {path : List Nat} {scopes scopes' : Scopes}

/-- The tags among the references that need aliases, in order: their names, and whether they are roots of qualified names. -/
def wanted (rule : Rule) (refs : List TagReference) : List (String × Bool) :=
  (refs.filter rule.qualifies).map (fun r => (r.name, r.isMemberRoot))

/-- At the end of a path stands a component method of a name, and its tags need aliases. -/
def AskedAt (rule : Rule) (src : Bytes) (scopes : Scopes) (root : Node) (q : List Nat) (name : String)
    (tags : List (String × Bool)) : Prop :=
  ∃ p m refs, p.path = q ∧ MethodAt rule src scopes root p m refs ∧ m.name = name ∧ wanted rule refs = tags

theorem wanted_eq {refs refs' : List TagReference} (h : List.Forall₂ SameReference refs refs') :
    wanted rule refs' = wanted rule refs := by
  induction h with
  | nil => rfl
  | @cons r r' refs refs' hr _ ih =>
    have hqualifies : rule.qualifies r' = rule.qualifies r := by
      rw [Rule.qualifies, Rule.qualifies, Rule.asks, Rule.asks, hr.name, hr.isMemberRoot, hr.bound]
    simp only [wanted, List.filter_cons, hqualifies] at ih ⊢
    split
    · rw [List.map_cons, List.map_cons, ih, hr.name, hr.isMemberRoot]
    · exact ih

theorem forall₂_of_results : ∀ {refs refs' : List TagReference}, List.Forall₂ SameResult (refs.map .ok) (refs'.map .ok) →
    List.Forall₂ SameReference refs refs'
  | [], [], _ => .nil
  | [], _ :: _, h => by cases h
  | _ :: _, [], h => by cases h
  | r :: refs, r' :: refs', h => by
    rw [List.map_cons, List.map_cons, List.forall₂_cons] at h
    exact .cons (h.1 r r' rfl rfl) (forall₂_of_results h.2)

/-- Where the survey finds no fault, a component method is in it. -/
theorem exists_methodAt (hscopes : Scopes.ofTree src root = .ok scopes)
    (hfault : (Survey.ofTree src rule.stem rule.asks root).fault = none) {p : Place} {name : String}
    (hp : p ∈ root.places none []) (hname : Component.methodName? src rule.stem p.parent p.node = .ok (some name)) :
    ∃ m refs, MethodAt rule src scopes root p m refs := by
  rw [Survey.ofTree_eq hscopes] at hfault
  have hall := Survey.ofResults_methods _ hfault
  have hhere : Survey.methodAt src rule.stem scopes.isBoundAt p =
      some ((Component.method src name p.node).map
        (fun m => (m, Component.references src rule.stem scopes.isBoundAt p.path p.node))) := by
    unfold Survey.methodAt; rw [hname]
  have hmem := List.mem_filterMap.2 ⟨p, hp, hhere⟩
  rw [hall] at hmem
  obtain ⟨⟨m, refs⟩, -, heq⟩ := List.mem_map.1 hmem
  exact ⟨m, refs, hp, by rw [hhere, ← heq]⟩

/-- **Methods do not disturb each other.**  Where two modules are the same but for one component method, every other one
that is not inside it asks for the same aliases, in the same order. -/
theorem methods_undisturbed (rule : Rule) (src src' : Bytes) (root root' : Node) (file file' : String)
    (hread : ∀ n ∈ root.preorder, Lexical.Readable src n) (hread' : ∀ n ∈ root'.preorder, Lexical.Readable src' n)
    (p p' : Place) (name : String) (hp : p ∈ root.places none []) (hp' : p' ∈ root'.places none []) (hpath : p'.path = p.path)
    (hmethod : IsMethod src rule.stem p name) (hmethod' : IsMethod src' rule.stem p' name)
    (hkind : p.node.kind = "method_definition") (hkind' : p'.node.kind = "method_definition")
    (hsame : SameBeside src src' p.path root root') (c c' : Collection)
    (hc : collectSurvey rule file (Survey.ofTree src rule.stem rule.asks root) = .ok c)
    (hc' : collectSurvey rule file' (Survey.ofTree src' rule.stem rule.asks root') = .ok c') :
    ∃ scopes scopes', Scopes.ofTree src root = .ok scopes ∧ Scopes.ofTree src' root' = .ok scopes' ∧
      ∀ q, ¬ p.path <+: q → ∀ name tags, AskedAt rule src scopes root q name tags ↔ AskedAt rule src' scopes' root' q name tags := by
  obtain ⟨scopes, hscopes⟩ := Lexical.exists_ofTree hread
  obtain ⟨scopes', hscopes'⟩ := Lexical.exists_ofTree hread'
  have hhidden := HiddenAt.of_isMethod (Node.placeAt?_of_mem_places hp) hmethod hkind
  have hhidden' := HiddenAt.of_isMethod (Node.placeAt?_of_mem_places hp') hmethod' hkind'
  rw [hpath] at hhidden'
  have hfault := (collectSurvey_ok hc).2
  have hfault' := (collectSurvey_ok hc').2
  refine ⟨scopes, scopes', hscopes, hscopes', fun q hout name tags => ?_⟩
  -- A component method at a place outside is one in both modules, of the same name and with the same tags.
  have hboth : ∀ r r', root.placeAt? none [] q = some r → root'.placeAt? none [] q = some r' →
      Component.methodName? src' rule.stem r'.parent r'.node = Component.methodName? src rule.stem r.parent r.node ∧
      ∀ m m' refs refs', MethodAt rule src scopes root r m refs → MethodAt rule src' scopes' root' r' m' refs' →
        m'.name = m.name ∧ wanted rule refs' = wanted rule refs := by
    intro r r' hr hr'
    obtain ⟨_, hplace, hparent, -⟩ := hsame.after hout hr
    rw [hr', Option.some.injEq] at hplace
    subst hplace
    obtain ⟨parent, _, n⟩ := r
    obtain ⟨parent', _, n'⟩ := r'
    obtain rfl := Component.path_of_place hr
    obtain rfl := Component.path_of_place hr'
    obtain rfl : parent' = parent := hparent
    have hname := (Component.twin_at hsame hhidden hhidden' n n' _ _ _ hout hr hr').methodName?
    refine ⟨hname, fun m m' refs refs' hm hm' => ?_⟩
    obtain ⟨⟨x, hx, hxm⟩, hrefs⟩ := hm.found
    obtain ⟨⟨x', hx', hxm'⟩, hrefs'⟩ := hm'.found
    have hresults := Component.references_outside hsame hhidden hhidden' hread hread' hscopes hscopes' hout hr hr'
    rw [hrefs, hrefs'] at hresults
    have hxx : x' = x := by
      have := hx'.symm.trans (hname.trans hx)
      exact Option.some.inj (Except.ok.inj this)
    exact ⟨by rw [Survey.name_of_method hxm, Survey.name_of_method hxm', hxx], wanted_eq (forall₂_of_results hresults)⟩
  constructor
  · rintro ⟨r, m, refs, rfl, hm, rfl, rfl⟩
    have hr := Node.placeAt?_of_mem_places hm.place
    obtain ⟨r', hr', -, -⟩ := hsame.after hout hr
    obtain ⟨hname, hequal⟩ := hboth r r' hr hr'
    obtain ⟨⟨x, hx, -⟩, -⟩ := hm.found
    obtain ⟨m', refs', hm'⟩ := exists_methodAt hscopes' hfault' ((Node.mem_places_iff none [] root' r').2 ⟨_, hr'⟩) (hname.trans hx)
    obtain ⟨hnames, htags⟩ := hequal m m' refs refs' hm hm'
    exact ⟨r', m', refs', Component.path_of_place hr', hm', hnames, htags⟩
  · rintro ⟨r', m', refs', rfl, hm', rfl, rfl⟩
    have hr' := Node.placeAt?_of_mem_places hm'.place
    obtain ⟨r, hr⟩ := hsame.before hout hr'
    obtain ⟨hname, hequal⟩ := hboth r r' hr hr'
    obtain ⟨⟨x, hx, -⟩, -⟩ := hm'.found
    obtain ⟨m, refs, hm⟩ := exists_methodAt hscopes hfault ((Node.mem_places_iff none [] root r).2 ⟨_, hr⟩) (hname.symm.trans hx)
    obtain ⟨hnames, htags⟩ := hequal m m' refs refs' hm hm'
    exact ⟨r, m, refs, Component.path_of_place hr, hm, hnames.symm, htags.symm⟩

/-! ## A method around the one that changes -/

/-- A method whose body is `inner`, which ends at `stop`. -/
def innerMethod (inner : Node) (stop : Nat) : Node :=
  .mk ⟨"method_definition", 19, stop + 2, "", true, false⟩
    [.mk ⟨"property_identifier", 19, 26, "name", true, false⟩ [],
      .mk ⟨"statement_block", 29, stop + 2, "body", true, false⟩
        [.mk ⟨"\x7b", 29, 30, "", false, false⟩ [], inner, .mk ⟨"\x7d", stop + 1, stop + 2, "", false, false⟩ []]]

/-- A method that renders a card, and in it a class with such a method. -/
def nestedMethods (inner : Node) (stop : Nat) : Node :=
  .mk ⟨"class_body", 0, stop + 14, "", true, false⟩ [.mk ⟨"method_definition", 0, stop + 14, "", true, false⟩
    [.mk ⟨"property_identifier", 0, 6, "name", true, false⟩ [],
      .mk ⟨"statement_block", 9, stop + 14, "body", true, false⟩
        [.mk ⟨"\x7b", 9, 10, "", false, false⟩ [],
          .mk ⟨"class", 11, stop + 4, "", true, false⟩ [.mk ⟨"class_body", 17, stop + 4, "body", true, false⟩
            [.mk ⟨"\x7b", 17, 18, "", false, false⟩ [], innerMethod inner stop,
              .mk ⟨"\x7d", stop + 3, stop + 4, "", false, false⟩ []]],
          .mk ⟨"jsx_self_closing_element", stop + 5, stop + 12, "", true, false⟩
            [.mk ⟨"identifier", stop + 6, stop + 10, "name", true, false⟩ []],
          .mk ⟨"\x7d", stop + 13, stop + 14, "", false, false⟩ []]]]

def declaredCard : Node :=
  .mk ⟨"variable_declaration", 31, 39, "", true, false⟩ [.mk ⟨"variable_declarator", 35, 39, "", true, false⟩
    [.mk ⟨"identifier", 35, 39, "name", true, false⟩ []]]

def renderedRow : Node :=
  .mk ⟨"jsx_self_closing_element", 31, 37, "", true, false⟩ [.mk ⟨"identifier", 32, 35, "name", true, false⟩ []]

def declaredCardText : String := "render() \x7b class \x7b renderX() \x7b var Card \x7d \x7d <Card/> \x7d"

def renderedRowText : String := "render() \x7b class \x7b renderX() \x7b <Row/> \x7d \x7d <Card/> \x7d"

/-- The method around asks for `Card`, whether the method in it declares that name or renders another tag. -/
theorem undisturbed_nestedMethod :
    (Survey.ofTree (Bytes.ofString declaredCardText) "render" (⟨"render", .aliased⟩ : Rule).asks
      (nestedMethods declaredCard 39)).methods.map (fun m => (m.1.name, wanted ⟨"render", .aliased⟩ m.2)) =
        [("render", [("Card", false)]), ("renderX", [])] ∧
    (Survey.ofTree (Bytes.ofString renderedRowText) "render" (⟨"render", .aliased⟩ : Rule).asks
      (nestedMethods renderedRow 37)).methods.map (fun m => (m.1.name, wanted ⟨"render", .aliased⟩ m.2)) =
        [("render", [("Card", false)]), ("renderX", [("Row", false)])] ∧
    ∃ scopes scopes', Scopes.ofTree (Bytes.ofString declaredCardText) (nestedMethods declaredCard 39) = .ok scopes ∧
      Scopes.ofTree (Bytes.ofString renderedRowText) (nestedMethods renderedRow 37) = .ok scopes' ∧
      ∀ q, ¬ [0, 1, 1, 0, 1] <+: q → ∀ name tags,
        AskedAt ⟨"render", .aliased⟩ (Bytes.ofString declaredCardText) scopes (nestedMethods declaredCard 39) q name tags ↔
          AskedAt ⟨"render", .aliased⟩ (Bytes.ofString renderedRowText) scopes' (nestedMethods renderedRow 37) q name tags := by
  have hcollects : ∀ e ∈ [(declaredCardText, nestedMethods declaredCard 39), (renderedRowText, nestedMethods renderedRow 37)],
      (collectSurvey ⟨"render", .aliased⟩ "" (Survey.ofTree (Bytes.ofString e.1) "render"
        (⟨"render", .aliased⟩ : Rule).asks e.2)).toOption.isSome = true := by decide +kernel
  obtain ⟨c, hc⟩ := Option.isSome_iff_exists.1 (hcollects (declaredCardText, nestedMethods declaredCard 39) (by simp))
  obtain ⟨c', hc'⟩ := Option.isSome_iff_exists.1 (hcollects (renderedRowText, nestedMethods renderedRow 37) (by simp))
  refine ⟨by decide +kernel, by decide +kernel, ?_⟩
  exact methods_undisturbed ⟨"render", .aliased⟩ (Bytes.ofString declaredCardText) (Bytes.ofString renderedRowText)
    (nestedMethods declaredCard 39) (nestedMethods renderedRow 37) "" "" (by decide +kernel) (by decide +kernel)
    ⟨some "class_body", [0, 1, 1, 0, 1], innerMethod declaredCard 39⟩ ⟨some "class_body", [0, 1, 1, 0, 1], innerMethod renderedRow 37⟩
    "renderX" ((Node.mem_places_iff none [] _ _).2 ⟨[0, 1, 1, 0, 1], rfl⟩)
    ((Node.mem_places_iff none [] _ _).2 ⟨[0, 1, 1, 0, 1], rfl⟩) rfl
    (Component.methodName?_eq_some_iff.1 (by decide +kernel)) (Component.methodName?_eq_some_iff.1 (by decide +kernel))
    rfl rfl (by decide +kernel) c c' (eq_ok_of_toOption hc) (eq_ok_of_toOption hc')

end Alias
end TagAlias
