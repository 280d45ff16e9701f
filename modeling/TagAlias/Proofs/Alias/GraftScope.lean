import TagAlias.Proofs.Alias.Graft
import TagAlias.Proofs.Scope.Reads
/-!
# Scopes of a tree with declarations put in

A node declares the same with declarations put in (`declarations_graft`), for all that is read of it are leaves that stay as
they are.  What leaves a subtree is the same but for the names put in at its root, which the scope of the method takes
(`analyze_graft`).  So a scope knows what it knew and, if a component method opens it, the names put into its body, and a
chain of scopes what it knew and the names put in around (`isBound_chainOf`).
-/
namespace TagAlias
namespace Alias

open Lexical (Readable makings readNodes)
open Scope (Declaration Reach)

/-- The nodes whose texts are read at a node: for its declarations, as the plain name of a method, as the root of a tag's
name. -/
def reads (src : Bytes) (isBody : Bool) (n : Node) : List Node :=
  readNodes src isBody n
    ++ (if Component.methodKinds.contains n.kind then
        (n.child? "name").toList.filter (Component.plainNameKinds.contains ·.kind)
      else [])
    ++ ((Component.tagRoot? n).map (·.2)).toList

/-- The text of the node can be read, and all that is read at it are leaves whose texts stay as they are. -/
structure Plain (g : Change) (n : Node) : Prop where
  readable : Readable g.before n
  settled : ∀ isBody, ∀ k ∈ reads g.before isBody n, k.children = [] ∧ g.loose k.label = false

variable {g : Change}

theorem Plain.leaf {n k : Node} (h : Plain g n) {isBody : Bool} (hk : k ∈ readNodes g.before isBody n) :
    k.children = [] ∧ g.loose k.label = false :=
  h.settled isBody k (List.mem_append_left _ (List.mem_append_left _ hk))

/-! ## Declarations of a node -/

theorem parameters_graft {o n : Node} (h : Related g o n) :
    List.Forall₂ (Related g) ((o.child? "parameters").toList.flatMap Lexical.patterns)
      ((n.child? "parameters").toList.flatMap Lexical.patterns) := by
  obtain ⟨_, _, hgraft⟩ := h
  exact List.rel_flatMap (hgraft.child_nil (by decide) (by decide)) (fun p p' (hp : Graft g [] _ p p') =>
    List.rel_flatMap hp.namedChildren_nil (fun _ _ hc => corresponds_related.bindingLeaves hc))

theorem keywords_graft {o n : Node} (h : Related g o n) :
    List.Forall₂ (Related g) (Lexical.keywords o) (Lexical.keywords n) := by
  unfold Lexical.keywords
  rw [h.kind]
  split
  · exact h.child (by decide)
  · exact .nil

theorem word_graft {o n : Node} (h : Related g o n) (hleaf : o.children = [] ∧ g.loose o.label = false) :
    Lexical.word g.after n = Lexical.word g.before o := by
  unfold Lexical.word
  rw [h.text hleaf.1 hleaf.2]

theorem keyword_graft {o n : Node} (h : Related g o n) (hplain : Plain g o)
    (hkind : ["lexical_declaration", "for_in_statement"].contains o.kind = true) :
    Lexical.keyword? g.after n = Lexical.keyword? g.before o := by
  unfold Lexical.keyword?
  rcases Forall₂.cases_toList (h.child (f := "kind") (by decide)) with ⟨ho, hn⟩ | ⟨x, y, ho, hn, hxy⟩
  · rw [ho, hn]; rfl
  · have hx : x ∈ readNodes g.before false o := by
      refine List.mem_append_left _ ?_
      rw [Lexical.keywords, if_pos hkind, ho]
      exact List.mem_singleton_self x
    rw [ho, hn, Option.map_some, Option.map_some, word_graft hxy (hplain.leaf hx)]

/-- **A node declares by the same nodes.** -/
theorem makings_graft {o n : Node} (h : Related g o n) (hplain : Plain g o) (isBody : Bool) :
    List.Forall₂ (SameMaking (Related g)) (makings g.before isBody o) (makings g.after isBody n) :=
  corresponds_related.makings h (fun _ => parameters_graft h) (keyword_graft h hplain) isBody

theorem readable_graft {o n : Node} (h : Related g o n) (hplain : Plain g o) (hread : ∀ m ∈ o.preorder, Readable g.before m)
    (isBody : Bool) : ∀ k ∈ readNodes g.after isBody n, Readable g.after k := by
  have hall : List.Forall₂ (Related g) (readNodes g.before isBody o) (readNodes g.after isBody n) :=
    List.rel_append (keywords_graft h) (List.rel_map (fun _ _ hm => SameMaking.leaf hm) (makings_graft h hplain isBody))
  have hok : ∀ k ∈ readNodes g.before isBody o, Readable g.before k ∧ k.children = [] ∧ g.loose k.label = false :=
    fun k hk => ⟨hread k (Lexical.readNodes_subset_preorder hk), hplain.leaf hk⟩
  revert hok
  generalize readNodes g.before isBody o = os at hall
  generalize readNodes g.after isBody n = ns at hall
  intro hok
  induction hall with
  | nil => intro k hk; cases hk
  | cons hon _ ih =>
    intro k hk
    rcases List.mem_cons.1 hk with rfl | hk
    · obtain ⟨⟨s, hs⟩, hleaf, hfast⟩ := hok _ List.mem_cons_self
      exact ⟨s, (hon.text hleaf hfast).trans hs⟩
    · exact ih (fun k hk => hok k (List.mem_cons_of_mem _ hk)) k hk

/-- **A node declares the same.** -/
theorem declarations_graft {o n : Node} (h : Related g o n) (hplain : Plain g o) (hread : ∀ m ∈ o.preorder, Readable g.before m)
    (isBody : Bool) : ∃ ds, Scope.declarations g.before isBody o = .ok ds ∧ Scope.declarations g.after isBody n = .ok ds := by
  refine ⟨_, Lexical.declarations_eq (fun k hk => hread k (Lexical.readNodes_subset_preorder hk)), ?_⟩
  rw [Lexical.declarations_eq (readable_graft h hplain hread isBody)]
  have hall := makings_graft h hplain isBody
  have hok : ∀ m ∈ makings g.before isBody o, m.leaf.children = [] ∧ g.loose m.leaf.label = false := fun m hm =>
    hplain.leaf (List.mem_append_right _ (List.mem_map_of_mem hm))
  refine congrArg Except.ok ?_
  revert hok
  generalize makings g.before isBody o = os at hall
  generalize makings g.after isBody n = ns at hall
  intro hok
  induction hall with
  | nil => rfl
  | cons hm _ ih =>
    rw [List.map_cons, List.map_cons, ih (fun m hm => hok m (List.mem_cons_of_mem _ hm)), Lexical.Making.declaration,
      Lexical.Making.declaration, hm.reach, hm.kind, word_graft hm.leaf (hok _ List.mem_cons_self)]

theorem opens_graft {o n : Node} (h : Related g o n) (isBody : Bool) : Scope.opens isBody n = Scope.opens isBody o := by
  have hname : (n.child? "name").map (fun _ => "class") = (o.child? "name").map (fun _ => "class") := by
    rcases Forall₂.cases_toList (h.child (f := "name") (by decide)) with ⟨ho, hn⟩ | ⟨x, y, ho, hn, -⟩
    · rw [ho, hn]
    · rw [ho, hn]; rfl
  unfold Scope.opens
  rw [h.kind, hname]

/-! ## What leaves a subtree -/

/-- A name is declared with a reach. -/
def Declared (ds : List Declaration) (r : Reach) (x : String) : Prop := ∃ d ∈ ds, d.reach = r ∧ d.name = x

/-- The second declarations declare what the first do, and the names around them. -/
def Gains (names : List String) (ds ds' : List Declaration) : Prop :=
  ∀ r x, Declared ds' r x ↔ Declared ds r x ∨ r = .around ∧ x ∈ names

theorem declared_append (ds es : List Declaration) (r : Reach) (x : String) :
    Declared (ds ++ es) r x ↔ Declared ds r x ∨ Declared es r x := by
  simp only [Declared, List.mem_append, or_and_right, exists_or]

theorem declared_singleton (d : Declaration) (r : Reach) (x : String) : Declared [d] r x ↔ d.reach = r ∧ d.name = x :=
  ⟨fun ⟨_, hd, h⟩ => by rw [List.mem_singleton.1 hd] at h; exact h, fun h => ⟨d, List.mem_singleton_self d, h⟩⟩

theorem Gains.refl (ds : List Declaration) : Gains [] ds ds := fun r x => by simp

theorem Gains.append {names names' : List String} {ds ds' es es' : List Declaration} (h : Gains names ds ds')
    (h' : Gains names' es es') : Gains (names ++ names') (ds ++ es) (ds' ++ es') := fun r x => by
  rw [declared_append, declared_append, h r x, h' r x, List.mem_append]
  constructor
  · rintro ((h | ⟨hr, hx⟩) | (h | ⟨hr, hx⟩))
    · exact .inl (.inl h)
    · exact .inr ⟨hr, .inl hx⟩
    · exact .inl (.inr h)
    · exact .inr ⟨hr, .inr hx⟩
  · rintro ((h | h) | ⟨hr, hx | hx⟩)
    · exact .inl (.inl h)
    · exact .inr (.inl h)
    · exact .inl (.inr ⟨hr, hx⟩)
    · exact .inr (.inr ⟨hr, hx⟩)

theorem declared_filter (ds : List Declaration) (p : Declaration → Bool) (r : Reach) (x : String) :
    Declared (ds.filter p) r x ↔ ∃ d ∈ ds, p d = true ∧ d.reach = r ∧ d.name = x := by
  simp only [Declared, List.mem_filter, and_assoc]

/-- A scope keeps back what is declared around it, so nothing is gained outside. -/
theorem Gains.leave {names : List String} {ds ds' : List Declaration} (h : Gains names ds ds') (kind : String) :
    Gains [] (ds.filter (!Scope.catches kind ·)) (ds'.filter (!Scope.catches kind ·)) := fun r x => by
  have hreach : ∀ es : List Declaration, Declared (es.filter (!Scope.catches kind ·)) r x ↔
      Declared es r x ∧ Scope.catches kind ⟨r, x, ""⟩ = false := fun es => by
    rw [declared_filter]
    constructor
    · rintro ⟨d, hd, hc, rfl, rfl⟩
      exact ⟨⟨d, hd, rfl, rfl⟩, by simpa [Scope.catches] using hc⟩
    · rintro ⟨⟨d, hd, rfl, rfl⟩, hc⟩
      exact ⟨d, hd, by simpa [Scope.catches] using hc, rfl, rfl⟩
  rw [hreach, hreach, h r x]
  constructor
  · rintro ⟨hd | ⟨rfl, hx⟩, hc⟩
    · exact .inl ⟨hd, hc⟩
    · cases hc
  · rintro (⟨hd, hc⟩ | ⟨-, hx⟩)
    · exact ⟨.inl hd, hc⟩
    · cases hx

/-- The names put into the first of some children in the field `body`. -/
def bodyNames (g : Change) (seeksBody : Bool) (cs : List Node) : List String :=
  if seeksBody then ((cs.find? (·.field == "body")).map g.names).getD [] else []

theorem bodyNames_cons (seeksBody : Bool) (c : Node) (cs : List Node) :
    bodyNames g seeksBody (c :: cs) = (if seeksBody && c.field == "body" then g.names c else [])
      ++ bodyNames g (seeksBody && !(seeksBody && c.field == "body")) cs := by
  unfold bodyNames
  rw [List.find?_cons]
  cases seeksBody with
  | false => rfl
  | true =>
    cases c.field == "body" with
    | true => simp
    | false => simp

theorem supplied_eq (parent : Option String) (l : Label) (cs : List Node) :
    Component.supplied g.names g.before g.stem parent (.mk l cs) =
      bodyNames g (Component.isOwnScope g.before g.stem parent (.mk l cs)) cs := rfl

theorem contains_of_isOwnScope {src : Bytes} {stem : String} {parent : Option String} {n : Node}
    (h : Component.isOwnScope src stem parent n = true) : Scope.functionKinds.contains n.kind = true := by
  rw [(Component.isOwnScope_iff.1 h).1]
  decide

/-- A node that opens no scope puts no names into a body. -/
theorem isOwnScope_of_opens {src : Bytes} {stem : String} {parent : Option String} {isBody : Bool} {n : Node}
    (h : Scope.opens isBody n = none) : Component.isOwnScope src stem parent n = false := by
  rw [← Bool.not_eq_true]
  intro hown
  rw [Scopes.opens_function (contains_of_isOwnScope hown)] at h
  cases h

theorem names_eq_nil_of_opens {names : List String} {parent : Option String} {o n : Node} {isBody : Bool} {kind : String}
    (h : Graft g names parent o n) (hbody : names ≠ [] → isBody = true) (ho : Scope.opens isBody o = some kind) : names = [] := by
  by_cases hn : names = []
  · exact hn
  · cases h with
    | mk _ block =>
      rw [hbody hn, Scope.opens] at ho
      simp [Node.kind, Node.label, block hn, Scope.functionKinds] at ho

theorem allParts_semicolon {t : Node} (h : IsSemicolon t) : AllParts [t] := by
  intro n hn
  cases t with
  | mk l cs =>
    have hcs : cs = [] := h.leaf
    subst hcs
    simp only [Node.preorderAll, Node.preorder, List.append_nil, List.mem_singleton] at hn
    subst hn
    rw [h.kind]; decide

theorem readable_eq_graft {o n : Node} (h : Related g o n) (hplain : ∀ m ∈ o.preorder, Plain g m) (isBody : Bool) :
    Scope.readable g.after isBody n = Scope.readable g.before isBody o := by
  obtain ⟨ds, ho, hn⟩ := declarations_graft h (hplain o (Node.self_mem_preorder o)) (fun m hm => (hplain m hm).readable) isBody
  rw [Scope.readable, Scope.readable, ho, hn]

/-- Names are put into nothing but the body of a function. -/
theorem body_of_names {seeks seeksBody : Bool} (hseeks : seeks = true → seeksBody = true) {c : Node}
    (h : (if seeks && c.field == "body" then g.names c else []) ≠ []) : (seeksBody && c.field == "body") = true := by
  cases hs : (seeks && c.field == "body") with
  | false => rw [hs] at h; exact absurd rfl h
  | true =>
    rw [Bool.and_eq_true] at hs ⊢
    exact ⟨hseeks hs.1, hs.2⟩

theorem seeks_rest {seeks seeksBody : Bool} (hseeks : seeks = true → seeksBody = true) {b : Bool}
    (h : (seeks && !(seeks && b)) = true) : (seeksBody && !(seeksBody && b)) = true := by
  cases seeks with
  | false => cases h
  | true => rw [hseeks rfl]; exact h

mutual

/-- **What leaves a subtree is the same, and the names put in at its root.** -/
theorem analyze_graft : ∀ (n : Node) {names : List String} {parent : Option String} {o : Node} {isBody : Bool},
    Graft g names parent o n → (∀ m ∈ o.preorder, Plain g m) → (names ≠ [] → isBody = true) →
    Gains names (Scope.analyze g.before isBody o).1 (Scope.analyze g.after isBody n).1
  | .mk l' cs', names, parent, .mk l cs, isBody, h, hplain, hbody => by
    have hrelated : Related g (.mk l cs) (.mk l' cs') := ⟨_, _, h⟩
    have hkind : l'.kind = l.kind := hrelated.kind
    have hhere := readable_eq_graft hrelated hplain isBody
    have hnames := @names_eq_nil_of_opens g names parent (.mk l cs) (.mk l' cs') isBody
    have hbelow : Gains (names ++ bodyNames g (Component.isOwnScope g.before g.stem parent (.mk l cs)) cs)
        (Scope.analyzeAll g.before (Scope.functionKinds.contains l.kind) cs).1
        (Scope.analyzeAll g.after (Scope.functionKinds.contains l.kind) cs').1 := by
      cases h with
      | mk _ _ _ _ below =>
        exact analyzeAll_graft cs' below (fun m hm => hplain m (by rw [Node.preorder]; exact List.mem_cons_of_mem _ hm))
          (fun hown => contains_of_isOwnScope hown)
    rw [Scope.analyze, Scope.analyze, opens_graft hrelated, hhere, hkind]
    cases ho : Scope.opens isBody (.mk l cs) with
    | none =>
      rw [isOwnScope_of_opens ho, show bodyNames g false cs = [] from rfl, List.append_nil] at hbelow
      exact (Gains.refl _).append hbelow
    | some kind =>
      have hnil := hnames h hbody ho
      subst hnil
      exact (Gains.refl _).append (hbelow.leave kind)

theorem analyzeAll_graft : ∀ (cs' : List Node) {seeks seeksBody : Bool} {names : List String} {parent : String} {cs : List Node},
    Grafts g seeks names parent cs cs' → (∀ m ∈ Node.preorderAll cs, Plain g m) → (seeks = true → seeksBody = true) →
    Gains (names ++ bodyNames g seeks cs) (Scope.analyzeAll g.before seeksBody cs).1 (Scope.analyzeAll g.after seeksBody cs').1
  | [], seeks, seeksBody, _, _, _, .nil, _, _ => by
    rw [Scope.analyzeAll, Scope.analyzeAll]
    cases seeks <;> exact Gains.refl _
  | c' :: cs', seeks, seeksBody, names, _, _, @Grafts.keep _ _ _ _ c _ cs _ first rest, hplain, hseeks => by
    have hfirst := @analyze_graft c' _ _ _ (seeksBody && c.field == "body") first
      (fun m hm => hplain m (by rw [Node.preorderAll]; exact List.mem_append_left _ hm))
      (body_of_names hseeks)
    have hrest := @analyzeAll_graft cs' _ (seeksBody && !(seeksBody && c.field == "body")) _ _ _ rest
      (fun m hm => hplain m (by rw [Node.preorderAll]; exact List.mem_append_right _ hm))
      (seeks_rest hseeks)
    rw [Scope.analyzeAll, Scope.analyzeAll, Related.field ⟨_, _, first⟩, bodyNames_cons]
    intro r x
    rw [hfirst.append hrest r x]
    simp only [List.mem_append]
    -- Both sides offer the same names in another order.
    refine or_congr Iff.rfl (and_congr Iff.rfl ?_)
    constructor
    · rintro (h | h | h)
      · exact .inr (.inl h)
      · exact .inl h
      · exact .inr (.inr h)
    · rintro (h | h | h)
      · exact .inr (.inl h)
      · exact .inl h
      · exact .inr (.inr h)
  | t :: cs', seeks, seeksBody, _, _, _, .semicolon token rest, hplain, hseeks => by
    rw [Scope.analyzeAll.eq_def g.after seeksBody (t :: cs')]
    simp only [token.field, show ("" == "body") = false from by decide, Bool.and_false, Bool.not_false, Bool.and_true,
      analyze_part g.after _ t (allParts_semicolon token), List.nil_append]
    exact analyzeAll_graft cs' rest hplain hseeks
  | d :: cs', seeks, seeksBody, _, _, _, @Grafts.declare _ _ name names _ _ _ _ declaration rest, hplain, hseeks => by
    rw [Scope.analyzeAll.eq_def g.after seeksBody (d :: cs')]
    simp only [declaration.field, show ("" == "body") = false from by decide, Bool.and_false, Bool.not_false, Bool.and_true,
      declaration.analyze]
    intro r x
    rw [declared_append, declared_singleton, analyzeAll_graft cs' rest hplain hseeks r x, List.cons_append, List.mem_cons]
    constructor
    · rintro (⟨rfl, rfl⟩ | h | ⟨hr, hx⟩)
      · exact .inr ⟨rfl, .inl rfl⟩
      · exact .inl h
      · exact .inr ⟨hr, .inr hx⟩
    · rintro (h | ⟨hr, hx | hx⟩)
      · exact .inr (.inl h)
      · exact .inl ⟨hr.symm, hx.symm⟩
      · exact .inr (.inr ⟨hr, hx⟩)

end

/-! ## What scopes know -/

theorem isSome_find?_declareAll (kind : String) (ds : List Declaration) {x : String} (hx : x ≠ "") :
    (((Scope.empty kind).declareAll (Scope.asBindings ds)).find? x).isSome = true ↔ ∃ r, Declared ds r x := by
  rw [Scope.find?_declareAll _ _ x hx, Scope.find?_empty, Option.none_or, List.lookup_isSome_iff]
  simp only [Scope.asBindings, List.mem_map, Declared, beq_iff_eq]
  constructor
  · rintro ⟨b, ⟨d, hd, rfl⟩, rfl⟩; exact ⟨d.reach, d, hd, rfl, rfl⟩
  · rintro ⟨r, d, hd, -, rfl⟩; exact ⟨_, ⟨d, hd, rfl⟩, rfl⟩

/-- A scope catches what is declared around its nodes, so it gains the names. -/
theorem Gains.caught {names : List String} {ds ds' : List Declaration} (h : Gains names ds ds') (kind : String) (x : String) :
    (∃ r, Declared (ds'.filter (Scope.catches kind)) r x) ↔ (∃ r, Declared (ds.filter (Scope.catches kind)) r x) ∨ x ∈ names := by
  have hreach : ∀ (es : List Declaration) (r : Reach), Declared (es.filter (Scope.catches kind)) r x ↔
      Declared es r x ∧ Scope.catches kind ⟨r, x, ""⟩ = true := fun es r => by
    rw [declared_filter]
    constructor
    · rintro ⟨d, hd, hc, rfl, rfl⟩
      exact ⟨⟨d, hd, rfl, rfl⟩, hc⟩
    · rintro ⟨⟨d, hd, rfl, rfl⟩, hc⟩
      exact ⟨d, hd, hc, rfl, rfl⟩
  simp only [hreach]
  constructor
  · rintro ⟨r, hd, hc⟩
    rcases (h r x).1 hd with hd | ⟨-, hx⟩
    · exact .inl ⟨r, hd, hc⟩
    · exact .inr hx
  · rintro (⟨r, hd, hc⟩ | hx)
    · exact ⟨r, (h r x).2 (.inl hd), hc⟩
    · exact ⟨.around, (h .around x).2 (.inr ⟨rfl, hx⟩), rfl⟩

theorem scope_analyze_some {src : Bytes} {isBody : Bool} {l : Label} {cs : List Node} {kind : String}
    (h : Scope.opens isBody (.mk l cs) = some kind) :
    (Scope.analyze src isBody (.mk l cs)).2.scope = some ((Scope.empty kind).declareAll (Scope.asBindings
      ((Scope.readable src isBody (.mk l cs)).filter (·.reach == .own)
        ++ (Scope.analyzeAll src (Scope.functionKinds.contains l.kind) cs).1.filter (Scope.catches kind)))) := by
  rw [Scope.analyze, h]; rfl

theorem scope_analyze_none {src : Bytes} {isBody : Bool} {n : Node} (h : Scope.opens isBody n = none) :
    (Scope.analyze src isBody n).2.scope = none := by
  cases n with
  | mk l cs => rw [Scope.analyze, h]; rfl

/-- The second scopes know what the first do, and the names. -/
def Knows (names : List String) (chain chain' : List Scope) : Prop :=
  ∀ x, x ≠ "" → Scope.isBound chain' x = (Scope.isBound chain x || names.contains x)

/-- **At a node the scopes know what they knew, and the names put into the bodies around it.** -/
theorem isBound_chainOf {names known : List String} {parent : Option String} {o n : Node} {isBody : Bool}
    {outer outer' : List Scope} (h : Graft g names parent o n) (hplain : ∀ m ∈ o.preorder, Plain g m)
    (hbody : names ≠ [] → isBody = true) (houter : Knows known outer outer') :
    Knows (Component.supplied g.names g.before g.stem parent o ++ known) (Component.chainOf g.before outer isBody o)
      (Component.chainOf g.after outer' isBody n) := by
  intro x hx
  have hrelated : Related g o n := ⟨_, _, h⟩
  unfold Component.chainOf
  cases ho : Scope.opens isBody o with
  | none =>
    have hn : Scope.opens isBody n = none := by rw [opens_graft hrelated, ho]
    rw [scope_analyze_none ho, scope_analyze_none hn, Component.supplied, isOwnScope_of_opens ho, if_neg Bool.false_ne_true]
    exact houter x hx
  | some kind =>
    have hnil := names_eq_nil_of_opens h hbody ho
    subst hnil
    have hn : Scope.opens isBody n = some kind := by rw [opens_graft hrelated, ho]
    have hhere := readable_eq_graft hrelated hplain isBody
    cases h with
    | @mk _ _ l l' cs cs' alike _ _ _ below =>
      have hbelow := analyzeAll_graft cs' below
        (fun m hm => hplain m (by rw [Node.preorder]; exact List.mem_cons_of_mem _ hm))
        (fun hown => contains_of_isOwnScope hown)
      rw [List.nil_append, ← supplied_eq, show (Node.mk l cs).kind = l.kind from rfl] at hbelow
      rw [scope_analyze_some ho, scope_analyze_some hn, hhere, alike.kind]
      simp only [Option.toList_some, List.singleton_append, Scope.isBound_cons, houter x hx, List.contains_append]
      have hor : ∀ own own' out knows given : Bool, own' = (own || given) →
          (own' || (out || knows)) = (own || out || (given || knows)) := by decide
      refine hor _ _ _ _ _ ?_
      rw [Bool.eq_iff_iff, Bool.or_eq_true, List.contains_iff_mem, isSome_find?_declareAll _ _ hx, isSome_find?_declareAll _ _ hx]
      simp only [declared_append, exists_or]
      rw [hbelow.caught kind x, or_assoc]

/-! ## Nothing unreadable -/

mutual

/-- **All that is declared can be read.** -/
theorem fault?_graft : ∀ (n : Node) {names : List String} {parent : Option String} {o : Node} (isBody : Bool),
    Graft g names parent o n → (∀ m ∈ o.preorder, Plain g m) → Scope.fault? g.after isBody n = none
  | .mk l' cs', names, parent, .mk l cs, isBody, h, hplain => by
    obtain ⟨ds, -, hn⟩ := declarations_graft ⟨_, _, h⟩ (hplain _ (Node.self_mem_preorder _))
      (fun m hm => (hplain m hm).readable) isBody
    rw [Scope.fault?, hn]
    cases h with
    | mk _ _ _ _ below =>
      exact faultIn?_graft cs' _ below (fun m hm => hplain m (by rw [Node.preorder]; exact List.mem_cons_of_mem _ hm))

theorem faultIn?_graft : ∀ (cs' : List Node) {seeks : Bool} (seeksBody : Bool) {names : List String} {parent : String}
    {cs : List Node}, Grafts g seeks names parent cs cs' → (∀ m ∈ Node.preorderAll cs, Plain g m) →
    Scope.faultIn? g.after seeksBody cs' = none
  | [], _, _, _, _, _, _, _ => by rw [Scope.faultIn?]
  | c' :: cs', _, seeksBody, _, _, _, .keep first rest, hplain => by
    rw [Scope.faultIn?, fault?_graft c' _ first (fun m hm => hplain m (by
      rw [Node.preorderAll]; exact List.mem_append_left _ hm))]
    exact faultIn?_graft cs' _ rest (fun m hm => hplain m (by rw [Node.preorderAll]; exact List.mem_append_right _ hm))
  | t :: cs', _, seeksBody, _, _, _, .semicolon token rest, hplain => by
    rw [Scope.faultIn?, fault?_part g.after _ t (allParts_semicolon token)]
    exact faultIn?_graft cs' _ rest hplain
  | d :: cs', _, seeksBody, _, _, _, .declare declaration rest, hplain => by
    rw [Scope.faultIn?, declaration.fault?]
    exact faultIn?_graft cs' _ rest hplain

end

theorem ofTree_graft {o n : Node} (h : Graft g [] none o n) (hplain : ∀ m ∈ o.preorder, Plain g m) :
    ∃ s s', Scopes.ofTree g.before o = .ok s ∧ Scopes.ofTree g.after n = .ok s' ∧ Knows [] [s.program] [s'.program] := by
  have ho : Scope.fault? g.before false o = none :=
    Lexical.fault?_eq_none g.before false o (fun m hm => (hplain m hm).readable)
  have hn : Scope.fault? g.after false n = none := fault?_graft n false h hplain
  refine ⟨_, _, by rw [Scopes.ofTree, ho], by rw [Scopes.ofTree, hn], fun x hx => ?_⟩
  have hgain : Gains [] (Scope.analyze g.before false o).1 (Scope.analyze g.after false n).1 :=
    analyze_graft n h hplain (fun hn => absurd rfl hn)
  simp only [Scope.isBound_cons, List.contains_nil, Bool.or_false, show ∀ x, Scope.isBound [] x = false from fun _ => rfl]
  rw [Bool.eq_iff_iff, isSome_find?_declareAll _ _ hx, isSome_find?_declareAll _ _ hx]
  simp [hgain _ x]

end Alias
end TagAlias
