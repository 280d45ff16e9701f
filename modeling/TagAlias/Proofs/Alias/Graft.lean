import TagAlias.Proofs.Alias.Declaration
import TagAlias.Proofs.Syntax.Corresponding
/-!
# Trees with declarations put in

`Graft` relates a tree to one that is the same but for declarations in the bodies of component methods and semicolons: the
nodes are alike, leaves have the same texts, and what begins where a position is known does so again.  Looking into a
node finds the same on both sides: the child in a field, the named children, the names bound by a pattern, the root of a
tag's name.
-/
namespace TagAlias
namespace Alias

/-- A text before and after declarations are put in. -/
structure Change where
  before : Bytes
  after : Bytes
  stem : String
  /-- The names that are declared in the body of a component method. -/
  names : Node → List String
  /-- The leaves whose text may be another afterwards. -/
  loose : Label → Bool

/-- The labels are the same but for the offsets. -/
structure Alike (l l' : Label) : Prop where
  kind : l'.kind = l.kind
  field : l'.field = l.field
  named : l'.named = l.named
  missing : l'.missing = l.missing

/-- A semicolon that ends a statement. -/
structure IsSemicolon (n : Node) : Prop where
  leaf : n.children = []
  kind : n.kind = ";"
  field : n.field = ""
  named : n.named = false
  missing : n.missing = false

mutual

/-- The second node is the first with declarations put in, and those of the given names at the node itself. -/
inductive Graft (g : Change) : List String → Option String → Node → Node → Prop
  | mk {names : List String} {parent : Option String} {l l' : Label} {cs cs' : List Node} (alike : Alike l l')
      (block : names ≠ [] → l.kind = "statement_block")
      (leaf : cs = [] → g.loose l = false → (Node.mk l' cs').text g.after = (Node.mk l cs).text g.before)
      (position : (∃ p, Position.ofOffset g.before l.start = .ok p) → ∃ p, Position.ofOffset g.after l'.start = .ok p)
      (below : Grafts g (Component.isOwnScope g.before g.stem parent (.mk l cs)) names l.kind cs cs') :
      Graft g names parent (.mk l cs) (.mk l' cs')

/-- The same for the children of a node, of which the first in the field `body` takes declarations if `seeksBody`. -/
inductive Grafts (g : Change) : Bool → List String → String → List Node → List Node → Prop
  | nil {seeksBody : Bool} {parent : String} : Grafts g seeksBody [] parent [] []
  | keep {seeksBody : Bool} {names : List String} {parent : String} {c c' : Node} {cs cs' : List Node}
      (first : Graft g (if seeksBody && c.field == "body" then g.names c else []) (some parent) c c')
      (rest : Grafts g (seeksBody && !(seeksBody && c.field == "body")) names parent cs cs') :
      Grafts g seeksBody names parent (c :: cs) (c' :: cs')
  | semicolon {seeksBody : Bool} {names : List String} {parent : String} {t : Node} {cs cs' : List Node}
      (token : IsSemicolon t) (rest : Grafts g seeksBody names parent cs cs') : Grafts g seeksBody names parent cs (t :: cs')
  | declare {seeksBody : Bool} {name : String} {names : List String} {parent : String} {d : Node} {cs cs' : List Node}
      (declaration : IsDeclaration g.after g.stem name d) (rest : Grafts g seeksBody names parent cs cs') :
      Grafts g seeksBody (name :: names) parent cs (d :: cs')

end

/-- The second node is the first with declarations put in, somewhere in a tree. -/
def Related (g : Change) (o n : Node) : Prop := ∃ names parent, Graft g names parent o n

variable {g : Change}

/-! ## What nodes have in common -/

theorem Related.label {o n : Node} (h : Related g o n) : Alike o.label n.label := by
  obtain ⟨_, _, h⟩ := h
  cases h with
  | mk alike => exact alike

theorem Related.kind {o n : Node} (h : Related g o n) : n.kind = o.kind := h.label.kind

theorem Related.field {o n : Node} (h : Related g o n) : n.field = o.field := h.label.field

theorem Related.named {o n : Node} (h : Related g o n) : n.named = o.named := h.label.named

theorem Related.text {o n : Node} (h : Related g o n) (hleaf : o.children = []) (hfast : g.loose o.label = false) :
    n.text g.after = o.text g.before := by
  obtain ⟨_, _, h⟩ := h
  cases h with
  | mk _ _ leaf => exact leaf hleaf hfast

theorem Related.position {o n : Node} (h : Related g o n) (ho : ∃ p, Position.ofOffset g.before o.start = .ok p) :
    ∃ p, Position.ofOffset g.after n.start = .ok p := by
  obtain ⟨_, _, h⟩ := h
  cases h with
  | mk _ _ _ position => exact position ho

theorem Related.grafts {o n : Node} (h : Related g o n) :
    ∃ seeksBody names parent, Grafts g seeksBody names parent o.children n.children := by
  obtain ⟨names, _, h⟩ := h
  cases h with
  | mk _ _ _ _ below => exact ⟨_, names, _, below⟩

/-! ## Children -/

/-- **In a field stands the same child.** -/
theorem Grafts.find?_field {f : String} (hf : f ≠ "") : ∀ {cs' : List Node} {seeksBody : Bool} {names : List String}
    {parent : String} {cs : List Node}, Grafts g seeksBody names parent cs cs' →
    List.Forall₂ (Related g) (cs.find? (·.field == f)).toList (cs'.find? (·.field == f)).toList
  | [], _, _, _, _, .nil => .nil
  | c' :: cs', _, _, _, _, @Grafts.keep _ _ _ _ c _ cs _ first rest => by
    have hc : Related g c c' := ⟨_, _, first⟩
    rw [List.find?_cons, List.find?_cons, hc.field]
    split
    · exact .cons hc .nil
    · exact rest.find?_field hf
  | t :: cs', _, _, _, _, .semicolon token rest => by
    rw [List.find?_cons, token.field, beq_false_of_ne (Ne.symm hf)]
    exact rest.find?_field hf
  | d :: cs', _, _, _, _, .declare declaration rest => by
    rw [List.find?_cons, declaration.field, beq_false_of_ne (Ne.symm hf)]
    exact rest.find?_field hf

theorem Related.child {o n : Node} (h : Related g o n) {f : String} (hf : f ≠ "") :
    List.Forall₂ (Related g) (o.child? f).toList (n.child? f).toList := by
  obtain ⟨_, _, _, below⟩ := h.grafts
  exact below.find?_field hf

theorem Grafts.filter_named : ∀ {cs' : List Node} {seeksBody : Bool} {parent : String} {cs : List Node},
    Grafts g seeksBody [] parent cs cs' → List.Forall₂ (Related g) (cs.filter (·.named)) (cs'.filter (·.named))
  | [], _, _, _, .nil => .nil
  | c' :: cs', _, _, _, @Grafts.keep _ _ _ _ c _ cs _ first rest => by
    have hc : Related g c c' := ⟨_, _, first⟩
    rw [List.filter_cons, List.filter_cons, hc.named]
    split
    · exact .cons hc rest.filter_named
    · exact rest.filter_named
  | t :: cs', _, _, _, .semicolon token rest => by
    rw [List.filter_cons, token.named]
    exact rest.filter_named

/-- Nothing is put in at a child in another field than the body. -/
theorem Grafts.find?_field_nil {f : String} (hf : f ≠ "") (hbody : f ≠ "body") : ∀ {cs' : List Node} {seeksBody : Bool}
    {names : List String} {parent : String} {cs : List Node}, Grafts g seeksBody names parent cs cs' →
    List.Forall₂ (Graft g [] (some parent)) (cs.find? (·.field == f)).toList (cs'.find? (·.field == f)).toList
  | [], _, _, _, _, .nil => .nil
  | c' :: cs', _, _, _, _, @Grafts.keep _ _ _ _ c _ cs _ first rest => by
    rw [List.find?_cons, List.find?_cons, Related.field ⟨_, _, first⟩]
    by_cases hc : c.field = f
    · rw [hc, beq_false_of_ne hbody, Bool.and_false, if_neg Bool.false_ne_true] at first
      rw [hc, beq_self_eq_true]
      exact .cons first .nil
    · rw [beq_false_of_ne hc]
      exact rest.find?_field_nil hf hbody
  | t :: cs', _, _, _, _, .semicolon token rest => by
    rw [List.find?_cons, token.field, beq_false_of_ne (Ne.symm hf)]
    exact rest.find?_field_nil hf hbody
  | d :: cs', _, _, _, _, .declare declaration rest => by
    rw [List.find?_cons, declaration.field, beq_false_of_ne (Ne.symm hf)]
    exact rest.find?_field_nil hf hbody

theorem Graft.child_nil {names : List String} {parent : Option String} {o n : Node} (h : Graft g names parent o n) {f : String}
    (hf : f ≠ "") (hbody : f ≠ "body") :
    List.Forall₂ (Graft g [] (some o.kind)) (o.child? f).toList (n.child? f).toList := by
  cases h with
  | mk _ _ _ _ below => exact below.find?_field_nil hf hbody

theorem Graft.namedChildren_nil {parent : Option String} {o n : Node} (h : Graft g [] parent o n) :
    List.Forall₂ (Related g) o.namedChildren n.namedChildren := by
  cases h with
  | mk _ _ _ _ below => exact below.filter_named

theorem Graft.names_eq_nil {names : List String} {parent : Option String} {o n : Node} (h : Graft g names parent o n)
    (hblock : o.kind ≠ "statement_block") : names = [] := by
  cases h with
  | mk _ block =>
    by_cases hn : names = []
    · exact hn
    · exact absurd (block hn) hblock

theorem Related.namedChildren {o n : Node} (h : Related g o n) (hblock : o.kind ≠ "statement_block") :
    List.Forall₂ (Related g) o.namedChildren n.namedChildren := by
  obtain ⟨names, parent, h⟩ := h
  have hnames := h.names_eq_nil hblock
  subst hnames
  exact h.namedChildren_nil

/-- Nodes that correspond do so all the way down. -/
theorem corresponds_related : Corresponds (Related g) (Related g) where
  kind := Related.kind
  child := fun h _ _ hf => h.child hf
  namedChildren := fun h hloose => h.namedChildren (fun e => hloose (by rw [e]; decide))
  leaf := fun h _ => h
  name := fun h _ => h.child (by decide)

/-! ## Faults -/

mutual

theorem Graft.hasFault : ∀ (n : Node) {names : List String} {parent : Option String} {o : Node},
    Graft g names parent o n → n.hasFault = o.hasFault
  | .mk l' cs', names, parent, .mk l cs, .mk alike _ _ _ below => by
    have hhere : Node.isFault (.mk l' cs') = Node.isFault (.mk l cs) := by
      unfold Node.isFault Node.kind Node.missing Node.label
      rw [alike.kind, alike.missing]
    rw [Node.hasFault, Node.hasFault, hhere, Grafts.hasFault cs' below]

theorem Grafts.hasFault : ∀ (cs' : List Node) {seeksBody : Bool} {names : List String} {parent : String} {cs : List Node},
    Grafts g seeksBody names parent cs cs' → Node.hasFaultIn cs' = Node.hasFaultIn cs
  | [], _, _, _, _, .nil => rfl
  | c' :: cs', _, _, _, _, @Grafts.keep _ _ _ _ c _ cs _ first rest => by
    rw [Node.hasFaultIn, Node.hasFaultIn, Graft.hasFault c' first, Grafts.hasFault cs' rest]
  | t :: cs', _, _, _, _, .semicolon token rest => by
    have ht : t.hasFault = false := by
      cases t with
      | mk l ds =>
        have hds : ds = [] := token.leaf
        subst hds
        simp [Node.hasFault, Node.hasFaultIn, Node.isFault, token.kind, token.missing]
    rw [Node.hasFaultIn.eq_def (t :: cs')]
    simp only [ht, Bool.false_or]
    exact Grafts.hasFault cs' rest
  | d :: cs', _, _, _, _, .declare declaration rest => by
    rw [Node.hasFaultIn.eq_def (d :: cs')]
    simp only [declaration.hasFault, Bool.false_or]
    exact Grafts.hasFault cs' rest

end

end Alias
end TagAlias
