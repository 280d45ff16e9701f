import TagAlias.Proofs.Data.Sequence
import TagAlias.Proofs.Syntax.Corresponding
import TagAlias.Proofs.Syntax.Preorder
import TagAlias.Proofs.Text.Edits
/-!
# The names in binding positions

A pattern binds the names at the ends of those paths into it that go to binding positions at every step (`boundAt_eq`).  What
stands beside the binding position of a parameter, a declarator, an assignment pattern or a pair (a default value, a key, a
type) may be anything: with another subtree put in there, or in anything below it, the same names are bound
(`boundLabels_replaceAt`), also where the text is edited and all offsets behind the edit move (`boundNames_edited`).
-/
namespace TagAlias
namespace Node

/-! ## Paths into a tree -/

mutual

/-- The paths into a tree, in preorder. -/
def paths : Node → List (List Nat)
  | mk _ cs => [] :: pathsIn 0 cs

/-- The paths through children, of which the first has number `i`. -/
def pathsIn (i : Nat) : List Node → List (List Nat)
  | [] => []
  | n :: r => (paths n).map (i :: ·) ++ pathsIn (i + 1) r

end

theorem pathsIn_eq (cs : List Node) (i : Nat) : pathsIn i cs = (cs.zipIdx i).flatMap (fun e => e.1.paths.map (e.2 :: ·)) := by
  induction cs generalizing i with
  | nil => rw [pathsIn]; rfl
  | cons c cs ih => rw [pathsIn, ih, List.zipIdx_cons, List.flatMap_cons]

theorem paths_eq (l : Label) (cs : List Node) :
    (mk l cs).paths = [] :: cs.zipIdx.flatMap (fun e => e.1.paths.map (e.2 :: ·)) := by
  rw [paths, pathsIn_eq]

theorem getElem?_of_mem_zipIdx {l : Label} {cs : List Node} {e : Node × Nat} (h : e ∈ cs.zipIdx) :
    (mk l cs).children[e.2]? = some e.1 := List.mem_zipIdx_iff_getElem?.1 h

theorem preorderAll_eq (cs : List Node) : preorderAll cs = cs.flatMap preorder := by
  induction cs with
  | nil => rw [preorderAll]; rfl
  | cons c cs ih => rw [preorderAll, ih, List.flatMap_cons]

theorem flatMap_zipIdx {α β : Type} (g : α → List β) (l : List α) : l.zipIdx.flatMap (fun e => g e.1) = l.flatMap g := by
  conv => rhs; rw [← List.zipIdx_map_fst 0 l, List.flatMap_map]

/-- **The paths lead to the nodes in preorder, to each occurrence once.** -/
theorem map_at?_paths (n : Node) : n.paths.map n.at? = n.preorder.map some := by
  refine Node.induct (P := fun n => n.paths.map n.at? = n.preorder.map some) ?_ n
  intro l cs ih
  rw [paths_eq, preorder, preorderAll_eq, List.map_cons, List.map_cons, at?_nil, List.map_flatMap, List.map_flatMap,
    ← flatMap_zipIdx (fun c : Node => c.preorder.map some)]
  congr 1
  refine List.flatMap_congr (fun e he => ?_)
  have hchild := getElem?_of_mem_zipIdx (l := l) he
  rw [List.map_map, ← ih e.1 (List.mem_of_getElem? hchild)]
  refine List.map_congr_left (fun path _ => ?_)
  rw [Function.comp_apply, at?_cons, hchild, Option.bind_some]

/-! ## Binding positions -/

def nameKinds : List String := ["identifier", "shorthand_property_identifier_pattern"]

/-- The kinds of nodes that bind below one of their fields, each with the field. -/
def bindingFields : List (String × String) :=
  [("required_parameter", "pattern"), ("optional_parameter", "pattern"), ("variable_declarator", "name"),
    ("assignment_pattern", "left"), ("object_assignment_pattern", "left"), ("pair_pattern", "value")]

/-- The kinds of nodes that bind below every named child. -/
def patternKinds : List String := ["object_pattern", "array_pattern", "rest_pattern"]

/-- The child of number `i` stands in a binding position: it is the first that fills the field below which the node binds, or
a named child of a pattern. -/
def IsBinding (n : Node) (i : Nat) : Prop :=
  (∃ e ∈ bindingFields, e.1 = n.kind ∧ n.children.findIdx? (·.field == e.2) = some i)
    ∨ n.kind ∈ patternKinds ∧ ∃ c ∈ n.children[i]?, c.named = true

instance (n : Node) (i : Nat) : Decidable (n.IsBinding i) := by
  unfold IsBinding; infer_instance

/-- The path goes to binding positions at every step and leads to a name. -/
def Binds : Node → List Nat → Prop
  | n, [] => n.kind ∈ nameKinds
  | n, i :: path => n.IsBinding i ∧ ∃ c ∈ n.children[i]?, Binds c path

theorem binds_nil (n : Node) : n.Binds [] ↔ n.kind ∈ nameKinds := by cases n; rfl

theorem binds_cons (n : Node) (i : Nat) (path : List Nat) :
    n.Binds (i :: path) ↔ n.IsBinding i ∧ ∃ c ∈ n.children[i]?, c.Binds path := by cases n; rfl

instance decidableBinds : ∀ (path : List Nat) (n : Node), Decidable (n.Binds path)
  | [], n => decidable_of_iff _ (binds_nil n).symm
  | i :: path, n =>
    have := decidableBinds path
    decidable_of_iff _ (binds_cons n i path).symm

/-- The nodes of the names in binding positions, in preorder. -/
def boundAt (n : Node) : List Node := (n.paths.filter (fun path => n.Binds path)).filterMap n.at?

/-! ### The kinds that bind -/

theorem mem_nameKinds_iff (k : String) : k ∈ nameKinds ↔ descent k = .leaf := by
  constructor
  · exact fun h => (by decide : ∀ k ∈ nameKinds, descent k = .leaf) k h
  · intro h
    unfold descent at h
    split at h
    · next hk => simpa [nameKinds] using hk
    · repeat' split at h
      all_goals cases h

theorem mem_bindingFields_iff (k f : String) : (k, f) ∈ bindingFields ↔ descent k = .field f := by
  constructor
  · exact fun h => (by decide : ∀ e ∈ bindingFields, descent e.1 = .field e.2) (k, f) h
  · intro h
    unfold descent at h
    split at h
    · cases h
    iterate 4
      split at h
      · next hk => cases h; simpa [bindingFields] using hk
    split at h <;> cases h

theorem mem_patternKinds_iff (k : String) : k ∈ patternKinds ↔ descent k = .everyChild := by
  constructor
  · exact fun h => (by decide : ∀ k ∈ patternKinds, descent k = .everyChild) k h
  · intro h
    unfold descent at h
    split at h
    · cases h
    iterate 4
      split at h
      · cases h
    split at h
    · next hk => simpa [patternKinds, or_assoc] using hk
    · cases h

/-- What a binding position is, by the way in which the node binds. -/
theorem isBinding_iff (n : Node) (i : Nat) : n.IsBinding i ↔
    (∃ f, descent n.kind = .field f ∧ n.children.findIdx? (·.field == f) = some i)
      ∨ descent n.kind = .everyChild ∧ ∃ c ∈ n.children[i]?, c.named = true := by
  rw [IsBinding, mem_patternKinds_iff]
  refine or_congr ⟨?_, ?_⟩ Iff.rfl
  · rintro ⟨⟨k, f⟩, he, rfl, hfirst⟩
    exact ⟨f, (mem_bindingFields_iff _ f).1 he, hfirst⟩
  · rintro ⟨f, hf, hfirst⟩
    exact ⟨(n.kind, f), (mem_bindingFields_iff _ f).2 hf, rfl, hfirst⟩

/-! ## What is bound -/

/-- What is made of the first member of a row that passes a test. -/
theorem flatMap_findIdx? {α β : Type} (p : α → Bool) (g : α → List β) : ∀ (l : List α) (k : Nat),
    (l.zipIdx k).flatMap (fun e => if (l.findIdx? p).map (· + k) = some e.2 then g e.1 else []) =
      (l.find? p).toList.flatMap g
  | [], k => rfl
  | a :: l, k => by
    rw [List.zipIdx_cons, List.flatMap_cons, List.findIdx?_cons, List.find?_cons]
    cases hp : p a with
    | true =>
      have hrest : (l.zipIdx (k + 1)).flatMap (fun e => if some k = some e.2 then g e.1 else []) = [] := by
        refine List.flatMap_eq_nil_iff.2 (fun e he => if_neg (fun heq => ?_))
        have hle := List.le_snd_of_mem_zipIdx he
        have hsame := Option.some.inj heq
        omega
      simpa using hrest
    | false =>
      rw [← flatMap_findIdx? p g l (k + 1)]
      have hbehind : ((l.findIdx? p).map (· + 1)).map (· + k) = (l.findIdx? p).map (· + (k + 1)) := by
        rw [Option.map_map]
        exact congrArg (fun h => (l.findIdx? p).map h) (funext (fun i => by simp; omega))
      have hne : (l.findIdx? p).map (· + (k + 1)) ≠ some k := by
        intro heq
        obtain ⟨i, -, hi⟩ := Option.map_eq_some_iff.1 heq
        omega
      simp only [Bool.false_eq_true, if_false, hbehind, if_neg hne, List.nil_append]

theorem bindingLeavesOfAll_eq_flatMap (cs : List Node) :
    bindingLeavesOfAll cs = cs.flatMap (fun c => if c.named then c.bindingLeaves else []) := by
  induction cs with
  | nil => rw [bindingLeavesOfAll]; rfl
  | cons c cs ih =>
    rw [bindingLeavesOfAll, List.flatMap_cons, ih]
    split <;> rfl

theorem bindingLeaves_eq (l : Label) (cs : List Node) : (mk l cs).bindingLeaves =
    (if l.kind ∈ nameKinds then [mk l cs] else [])
      ++ cs.zipIdx.flatMap (fun e => if (mk l cs).IsBinding e.2 then e.1.bindingLeaves else []) := by
  have hkind : (mk l cs).kind = l.kind := rfl
  have hnone : (∀ i, ¬ (mk l cs).IsBinding i) →
      cs.zipIdx.flatMap (fun e => if (mk l cs).IsBinding e.2 then e.1.bindingLeaves else []) = [] :=
    fun h => List.flatMap_eq_nil_iff.2 (fun e _ => if_neg (h e.2))
  rw [bindingLeaves]
  simp only [mem_nameKinds_iff]
  cases hd : descent l.kind with
  | leaf =>
    rw [hnone (fun i => by rw [isBinding_iff, hkind, hd]; simp)]
    rfl
  | nowhere =>
    rw [hnone (fun i => by rw [isBinding_iff, hkind, hd]; simp)]
    rfl
  | field f =>
    have hfirst : ∀ i, (mk l cs).IsBinding i ↔ (cs.findIdx? (·.field == f)).map (· + 0) = some i := by
      intro i
      rw [isBinding_iff, hkind, hd]
      simp [children]
    simp only [hfirst]
    rw [flatMap_findIdx?, bindingLeavesAt_eq]
    rfl
  | everyChild =>
    have hnamed : cs.zipIdx.flatMap (fun e => if (mk l cs).IsBinding e.2 then e.1.bindingLeaves else []) =
        cs.zipIdx.flatMap (fun e => if e.1.named then e.1.bindingLeaves else []) := by
      refine List.flatMap_congr (fun e he => ?_)
      have hbinding : (mk l cs).IsBinding e.2 ↔ e.1.named = true := by
        rw [isBinding_iff, hkind, hd, getElem?_of_mem_zipIdx he]
        simp
      simp only [hbinding]
    have hall := flatMap_zipIdx (fun c : Node => if c.named then c.bindingLeaves else []) cs
    rw [hnamed, hall]
    exact bindingLeavesOfAll_eq_flatMap cs

/-- What is bound below a child in a binding position is bound. -/
theorem filterMap_child {n c : Node} {i : Nat} (hc : n.children[i]? = some c) :
    ((c.paths.map (i :: ·)).filter (fun path => n.Binds path)).filterMap n.at? = if n.IsBinding i then c.boundAt else [] := by
  have hbinds : ∀ path, n.Binds (i :: path) ↔ n.IsBinding i ∧ c.Binds path := by
    intro path
    rw [binds_cons, hc]
    simp
  have hat : ∀ path, n.at? (i :: path) = c.at? path := by
    intro path
    rw [at?_cons, hc, Option.bind_some]
  rw [List.filter_map, List.filterMap_map, boundAt]
  simp only [Function.comp_def, hbinds, hat]
  split
  · next h => simp [h]
  · next h => simp [h]

theorem boundAt_mk (l : Label) (cs : List Node) : (mk l cs).boundAt = (if l.kind ∈ nameKinds then [mk l cs] else [])
    ++ cs.zipIdx.flatMap (fun e => if (mk l cs).IsBinding e.2 then e.1.boundAt else []) := by
  have hself : (mk l cs).Binds [] ↔ l.kind ∈ nameKinds := binds_nil _
  have hbelow : ((cs.zipIdx.flatMap (fun e => e.1.paths.map (e.2 :: ·))).filter (fun path => (mk l cs).Binds path)).filterMap
      (mk l cs).at? = cs.zipIdx.flatMap (fun e => if (mk l cs).IsBinding e.2 then e.1.boundAt else []) := by
    rw [List.filter_flatMap, List.filterMap_flatMap]
    exact List.flatMap_congr (fun e he => filterMap_child (getElem?_of_mem_zipIdx he))
  rw [boundAt, paths_eq, List.filter_cons, ← hbelow]
  by_cases hname : l.kind ∈ nameKinds
  · rw [if_pos hname, if_pos (decide_eq_true (hself.2 hname)), List.filterMap_cons_some (at?_nil _)]
    rfl
  · rw [if_neg hname, if_neg (by simpa [hself] using hname), List.nil_append]

/-- **A pattern binds exactly the names in binding positions.** -/
theorem boundAt_eq (n : Node) : n.boundAt = n.bindingLeaves := by
  refine Node.induct (P := fun n => n.boundAt = n.bindingLeaves) ?_ n
  intro l cs ih
  rw [boundAt_mk, bindingLeaves_eq]
  congr 1
  refine List.flatMap_congr (fun e he => ?_)
  rw [ih e.1 (List.mem_of_getElem? (List.mem_zipIdx_iff_getElem?.1 he))]

/-! ## What stands aside -/

/-- The tree with another subtree at the end of a path. -/
def replaceAt : Node → List Nat → Node → Node
  | _, [], new => new
  | mk l cs, i :: path, new => mk l (cs.modify i (fun c => replaceAt c path new))

theorem replaceAt_nil (n new : Node) : n.replaceAt [] new = new := by cases n; rfl

theorem replaceAt_cons (l : Label) (cs : List Node) (i : Nat) (path : List Nat) (new : Node) :
    (mk l cs).replaceAt (i :: path) new = mk l (cs.modify i (·.replaceAt path new)) := rfl

theorem label_replaceAt_cons (n : Node) (i : Nat) (path : List Nat) (new : Node) :
    (n.replaceAt (i :: path) new).label = n.label := by cases n; rfl

/-- The child of number `i` of a node that binds below a field stands beside what fills it: it is a default value, a key, a
type, or whatever else. -/
def IsAside (n : Node) (i : Nat) : Prop := (∃ e ∈ bindingFields, e.1 = n.kind) ∧ ¬ n.IsBinding i

instance (n : Node) (i : Nat) : Decidable (n.IsAside i) := by
  unfold IsAside; infer_instance

theorem IsAside.descent {n : Node} {i : Nat} (h : n.IsAside i) :
    ∃ f, descent n.kind = .field f ∧ n.children.findIdx? (·.field == f) ≠ some i := by
  obtain ⟨⟨⟨k, f⟩, he, rfl⟩, hnot⟩ := h
  have hf := (mem_bindingFields_iff _ f).1 he
  exact ⟨f, hf, fun hfirst => hnot ((isBinding_iff n i).2 (.inl ⟨f, hf, hfirst⟩))⟩

/-- Changing a member that still passes a test if it did changes what the test finds only if it finds this one. -/
theorem find?_modify {α : Type} {p : α → Bool} {g : α → α} : ∀ {l : List α} {i : Nat} {a : α}, l[i]? = some a →
    p (g a) = p a → (l.modify i g).find? p = if l.findIdx? p = some i then some (g a) else l.find? p
  | b :: l, 0, a, ha, hg => by
    obtain rfl : b = a := Option.some.inj ha
    rw [List.modify_zero_cons, List.find?_cons, List.find?_cons, List.findIdx?_cons, hg]
    cases p b <;> simp
  | b :: l, i + 1, a, ha, hg => by
    rw [List.modify_succ_cons, List.find?_cons, List.find?_cons, List.findIdx?_cons, find?_modify (l := l) ha hg]
    cases p b <;> simp

/-- Members of a row that gives the same for one of them changed. -/
theorem flatMap_modify {α β : Type} {g : α → α} {h : α → List β} : ∀ {l : List α} {i : Nat} {a : α}, l[i]? = some a →
    h (g a) = h a → (l.modify i g).flatMap h = l.flatMap h
  | b :: l, 0, a, ha, hg => by
    obtain rfl : b = a := Option.some.inj ha
    rw [List.modify_zero_cons, List.flatMap_cons, List.flatMap_cons, hg]
  | b :: l, i + 1, a, ha, hg => by
    rw [List.modify_succ_cons, List.flatMap_cons, List.flatMap_cons, flatMap_modify (l := l) ha hg]

def boundLabels (n : Node) : List Label := n.bindingLeaves.map label

theorem boundNames_eq (src : Bytes) (n : Node) :
    n.boundNames src = n.boundLabels.mapM (fun l => (src.slice l.start l.stop).toString?) := by
  rw [boundLabels, List.mapM_map]
  rfl

/-- **A child may be changed that keeps its place, if it binds the same or what it binds does not count.** -/
theorem boundLabels_modify {l : Label} {cs : List Node} {i : Nat} {c : Node} {g : Node → Node} (hc : cs[i]? = some c)
    (hfield : (g c).field = c.field) (hnamed : descent l.kind = .everyChild → (g c).named = c.named)
    (hsame : (mk l cs).IsBinding i → (g c).boundLabels = c.boundLabels) :
    (mk l (cs.modify i g)).boundLabels = (mk l cs).boundLabels := by
  have hkind : (mk l cs).kind = l.kind := rfl
  simp only [boundLabels] at hsame ⊢
  rw [bindingLeaves, bindingLeaves]
  cases hd : descent l.kind with
  | leaf => rfl
  | nowhere => rfl
  | field f =>
    have hpasses : ((g c).field == f) = (c.field == f) := by rw [hfield]
    simp only [bindingLeavesAt_eq]
    rw [find?_modify hc hpasses]
    split
    · next hfirst =>
      have hbinding : (mk l cs).IsBinding i := (isBinding_iff _ i).2 (.inl ⟨f, hd, hfirst⟩)
      have hfound : cs.find? (·.field == f) = some c := by
        rw [List.find?_eq_bind_findIdx?_getElem?, hfirst, Option.bind_some, hc]
      simpa [hfound] using hsame hbinding
    · rfl
  | everyChild =>
    simp only [bindingLeavesOfAll_eq_flatMap, List.map_flatMap]
    refine flatMap_modify hc ?_
    rw [hnamed hd]
    by_cases hname : c.named = true
    · have hbinding : (mk l cs).IsBinding i := (isBinding_iff _ i).2 (.inr ⟨hd, c, hc, hname⟩)
      rw [if_pos hname, if_pos hname, hsame hbinding]
    · rw [if_neg hname, if_neg hname]

/-- A subtree put in where another stood fills the same field. -/
theorem field_replaceAt {c old : Node} {rest : List Nat} (hold : c.at? rest = some old) (new : Node) :
    (c.replaceAt rest (new.inField old.field)).field = c.field := by
  cases rest with
  | nil =>
    rw [at?_nil, Option.some.injEq] at hold
    rw [replaceAt_nil, ← hold]
    cases new; rfl
  | cons i rest => rw [Node.field, label_replaceAt_cons]; rfl

theorem boundLabels_replaceAt : ∀ (pre : List Nat) {n m old : Node} {i : Nat} {rest : List Nat} (new : Node),
    n.at? pre = some m → m.IsAside i → n.at? (pre ++ i :: rest) = some old →
      (n.replaceAt (pre ++ i :: rest) (new.inField old.field)).boundLabels = n.boundLabels
  | [], mk l cs, m, old, i, rest, new, hm, haside, hold => by
    rw [at?_nil, Option.some.injEq] at hm
    subst hm
    rw [List.nil_append, at?_cons] at hold
    obtain ⟨c, hc, hold⟩ := Option.bind_eq_some_iff.1 hold
    obtain ⟨f, hf, -⟩ := haside.descent
    have hf : descent l.kind = .field f := hf
    rw [List.nil_append, replaceAt_cons]
    refine boundLabels_modify hc (field_replaceAt hold new) (fun hd => ?_) (fun hbinding => absurd hbinding haside.2)
    rw [hd] at hf
    cases hf
  | j :: pre, mk l cs, m, old, i, rest, new, hm, haside, hold => by
    rw [at?_cons] at hm
    obtain ⟨c, hc, hm⟩ := Option.bind_eq_some_iff.1 hm
    have hold : c.at? (pre ++ i :: rest) = some old := by
      rw [List.cons_append, at?_cons, hc, Option.bind_some] at hold
      exact hold
    have hlabel : (c.replaceAt (pre ++ i :: rest) (new.inField old.field)).label = c.label := by
      cases pre <;> exact label_replaceAt_cons ..
    rw [List.cons_append, replaceAt_cons]
    exact boundLabels_modify hc (congrArg Label.field hlabel) (fun _ => congrArg Label.named hlabel)
      (fun _ => boundLabels_replaceAt pre new hm haside hold)

/-! ## Where the text is edited -/

section

variable (f g : Nat → Nat)

mutual

/-- The tree with all offsets moved, those where nodes begin and those where they end. -/
def moved : Node → Node
  | mk l cs => mk { l with start := f l.start, stop := g l.stop } (movedAll cs)

def movedAll : List Node → List Node
  | [] => []
  | n :: r => moved n :: movedAll r

end

theorem movedAll_eq (cs : List Node) : movedAll f g cs = cs.map (moved f g) := by
  induction cs with
  | nil => rw [movedAll]; rfl
  | cons c cs ih => rw [movedAll, ih, List.map_cons]

@[simp] theorem children_moved (n : Node) : (n.moved f g).children = n.children.map (moved f g) := by
  cases n; rw [moved, ← movedAll_eq]; rfl

@[simp] theorem kind_moved (n : Node) : (n.moved f g).kind = n.kind := by cases n; rw [moved]; rfl

@[simp] theorem field_moved (n : Node) : (n.moved f g).field = n.field := by cases n; rw [moved]; rfl

@[simp] theorem named_moved (n : Node) : (n.moved f g).named = n.named := by cases n; rw [moved]; rfl

theorem at?_moved (path : List Nat) (n : Node) : (n.moved f g).at? path = (n.at? path).map (moved f g) := by
  induction path generalizing n with
  | nil => rw [at?_nil, at?_nil, Option.map_some]
  | cons i path ih =>
    rw [at?_cons, at?_cons, children_moved, List.getElem?_map]
    cases n.children[i]? with
    | none => rfl
    | some c => exact ih c

theorem isBinding_moved (n : Node) (i : Nat) : (n.moved f g).IsBinding i ↔ n.IsBinding i := by
  simp only [IsBinding, kind_moved, children_moved, List.findIdx?_map, Function.comp_def, field_moved, List.getElem?_map]
  refine or_congr Iff.rfl (and_congr Iff.rfl ?_)
  cases n.children[i]? <;> simp

theorem bindingLeaves_moved (n : Node) : (n.moved f g).bindingLeaves = n.bindingLeaves.map (moved f g) := by
  refine Node.induct (P := fun n => (n.moved f g).bindingLeaves = n.bindingLeaves.map (moved f g)) ?_ n
  intro l cs ih
  rw [moved, movedAll_eq, bindingLeaves, bindingLeaves]
  cases descent l.kind with
  | leaf => simp [moved, movedAll_eq]
  | nowhere => rfl
  | field a =>
    have hsame : (fun n : Node => n.field == a) ∘ moved f g = fun n => n.field == a :=
      funext (fun n => by rw [Function.comp_apply, field_moved])
    simp only [bindingLeavesAt_eq, List.find?_map, hsame]
    cases hc : cs.find? (·.field == a) with
    | none => rfl
    | some c => simpa using ih c (List.mem_of_find?_eq_some hc)
  | everyChild =>
    simp only [bindingLeavesOfAll_eq_flatMap, List.flatMap_map, List.map_flatMap, named_moved]
    refine List.flatMap_congr (fun c hc => ?_)
    split
    · exact ih c hc
    · rfl

end

/-- Where what begins at an offset begins once `k` bytes stand in the place of those from `s` to `e`. -/
def startBehind (s e k o : Nat) : Nat := if e ≤ o then o - e + (s + k) else o

/-- Where what ends at an offset ends then. -/
def stopBehind (s e k o : Nat) : Nat := if e ≤ o ∧ s < o then o - e + (s + k) else min o s

/-- What does not overlap an edit stays as it is. -/
theorem slice_edited {a was is b : Bytes} {i j : Nat} (h : j ≤ a.length ∨ a.length + was.length ≤ i) :
    (a ++ (is ++ b)).slice (startBehind a.length (a.length + was.length) is.length i)
      (stopBehind a.length (a.length + was.length) is.length j) = (a ++ (was ++ b)).slice i j := by
  unfold startBehind stopBehind
  by_cases hempty : j ≤ i
  · -- The bytes from `i` to `j` are none, before the edit and behind it.
    rw [Bytes.slice_eq_nil (a ++ (was ++ b)) hempty, Bytes.slice_eq_nil]
    split <;> split <;> omega
  · rcases h with hfront | hbehind
    · rw [if_neg (by omega), if_neg (by omega), Nat.min_eq_left hfront, Bytes.slice_append_left hfront,
        Bytes.slice_append_left hfront]
    · rw [if_pos hbehind, if_pos (by omega), ← List.append_assoc, ← List.append_assoc,
        Bytes.slice_append_right (by rw [List.length_append]; omega),
        Bytes.slice_append_right (by rw [List.length_append]; exact hbehind), List.length_append, List.length_append]
      congr 1 <;> omega

/-- The tree after the bytes from `s` to `e` have been replaced by `k` others. -/
def edited (s e k : Nat) (n : Node) : Node := n.moved (startBehind s e k) (stopBehind s e k)

theorem boundNames_edited {a was is b : Bytes} {n : Node}
    (h : ∀ d ∈ n.bindingLeaves, d.stop ≤ a.length ∨ a.length + was.length ≤ d.start) :
    (n.edited a.length (a.length + was.length) is.length).boundNames (a ++ (is ++ b)) = n.boundNames (a ++ (was ++ b)) := by
  rw [boundNames, edited, bindingLeaves_moved, List.mapM_map, boundNames]
  refine mapM_congr (fun d hd => ?_)
  cases d with
  | mk l cs =>
    rw [Function.comp_apply, moved]
    exact congrArg Bytes.toString? (slice_edited (h _ hd))

theorem isAside_moved {n : Node} {i : Nat} (f g : Nat → Nat) (h : n.IsAside i) : (n.moved f g).IsAside i := by
  refine ⟨?_, fun hbinding => h.2 ((isBinding_moved f g n i).1 hbinding)⟩
  rw [kind_moved]
  exact h.1

/-! ## The names that a pattern binds -/

/-- **A node binds the names in binding positions.**  The paths into a tree lead to its nodes in preorder, to each occurrence
once.  The names that a node binds are the texts at the ends of those paths that go to binding positions at every step and
lead to a name, in this order.  With any other subtree in the place of one at or below what stands aside, a default value, a
key or a type, the names are the same; so they are if the text is edited there with it, as long as no bound name overlaps the
edit. -/
theorem boundNames_by_position (n : Node) :
    n.paths.map n.at? = n.preorder.map some ∧
    (∀ src, n.boundNames src = ((n.paths.filter (fun path => n.Binds path)).filterMap n.at?).mapM (·.text src)) ∧
    ∀ (pre : List Nat) (i : Nat) (rest : List Nat) (m old new : Node), n.at? pre = some m → m.IsAside i →
      n.at? (pre ++ i :: rest) = some old →
      (∀ src, (n.replaceAt (pre ++ i :: rest) (new.inField old.field)).boundNames src = n.boundNames src) ∧
      ∀ a was is b : Bytes, (∀ d ∈ n.bindingLeaves, d.stop ≤ a.length ∨ a.length + was.length ≤ d.start) →
        ((n.edited a.length (a.length + was.length) is.length).replaceAt (pre ++ i :: rest)
          (new.inField old.field)).boundNames (a ++ (is ++ b)) = n.boundNames (a ++ (was ++ b)) := by
  refine ⟨map_at?_paths n, fun src => by rw [boundNames, ← boundAt_eq, boundAt], ?_⟩
  intro pre i rest m old new hm haside hold
  refine ⟨fun src => ?_, fun a was is b hapart => ?_⟩
  · rw [boundNames_eq, boundLabels_replaceAt pre new hm haside hold, boundNames_eq]
  · have hfield : old.field = (old.moved (startBehind a.length (a.length + was.length) is.length)
        (stopBehind a.length (a.length + was.length) is.length)).field := (field_moved _ _ _).symm
    rw [← boundNames_edited hapart, boundNames_eq, hfield, edited, boundNames_eq]
    rw [boundLabels_replaceAt pre new (by rw [at?_moved, hm]; rfl) (isAside_moved _ _ haside) (by rw [at?_moved, hold]; rfl)]

/-- The pattern `{[k]: [b = v], ...d}` with a key and a default value that are names themselves. -/
def keyed : Node :=
  .mk ⟨"object_pattern", 0, 20, "", true, false⟩ [
    .mk ⟨"\x7b", 0, 1, "", false, false⟩ [],
    .mk ⟨"pair_pattern", 1, 13, "", true, false⟩ [
      .mk ⟨"computed_property_name", 1, 4, "key", true, false⟩ [.mk ⟨"identifier", 2, 3, "", true, false⟩ []],
      .mk ⟨"array_pattern", 6, 13, "value", true, false⟩ [
        .mk ⟨"assignment_pattern", 7, 12, "", true, false⟩ [
          .mk ⟨"identifier", 7, 8, "left", true, false⟩ [],
          .mk ⟨"identifier", 11, 12, "right", true, false⟩ []]]],
    .mk ⟨"rest_pattern", 15, 19, "", true, false⟩ [.mk ⟨"identifier", 18, 19, "", true, false⟩ []]]

/-- Two names are bound in it, also where the default value becomes a pattern and where the key is edited. -/
theorem boundNames_by_position_keyed :
    keyed.paths.filter (fun path => keyed.Binds path) = [[1, 1, 0, 0], [2, 0]] ∧
    keyed.boundNames (Bytes.ofString "\x7b[k]: [b = v], ...d\x7d") = .ok ["b", "d"] ∧
    (keyed.replaceAt [1, 1, 0, 1] (keyed.inField "right")).boundNames (Bytes.ofString "\x7b[k]: [b = v], ...d\x7d") =
      .ok ["b", "d"] ∧
    ((keyed.edited 2 3 3).replaceAt [1, 0, 0] (keyed.inField "")).boundNames (Bytes.ofString "\x7b[x.y]: [b = v], ...d\x7d") =
      .ok ["b", "d"] := by
  obtain ⟨-, hnames, haside⟩ := boundNames_by_position keyed
  have hpaths : keyed.paths.filter (fun path => keyed.Binds path) = [[1, 1, 0, 0], [2, 0]] := by decide
  have hbound : keyed.boundNames (Bytes.ofString "\x7b[k]: [b = v], ...d\x7d") = .ok ["b", "d"] := by
    rw [hnames, hpaths]
    decide +kernel
  obtain ⟨hdefault, -⟩ := haside [1, 1, 0] 1 [] _ _ keyed rfl (by decide) rfl
  obtain ⟨-, hedited⟩ := haside [1] 0 [0] _ _ keyed rfl (by decide) rfl
  have hkey := hedited (Bytes.ofString "\x7b[") (Bytes.ofString "k") (Bytes.ofString "x.y")
    (Bytes.ofString "]: [b = v], ...d\x7d") (by decide)
  exact ⟨hpaths, hbound, (hdefault _).trans hbound, hkey.trans hbound⟩

end Node
end TagAlias
