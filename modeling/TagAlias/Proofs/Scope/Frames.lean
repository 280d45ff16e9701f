import TagAlias.Proofs.Scope.Bindings
import TagAlias.Proofs.Syntax.Preorder
import TagAlias.Scope.Analysis
/-!
# Bindings and the scopes they are in

`Scopes.framesAt` is the chain of scopes around a node with the address of each: the way to the node that opens it, and
none for the program's.  `Scopes.resolve` says what a name means and in which scope.  The chain further in is the chain
further out with scopes in front (`framesAt_append`), and to declare names on some scopes of a tree changes the frames at
their addresses and nothing else (`framesAt_declareAll`).
-/
namespace TagAlias

/-- The way to the node that opens a scope; none for the scope of the program. -/
abbrev Address := Option (List Nat)

/-- Names to be declared, each on the scope that the node at the end of a path opens. -/
abbrev Additions := List (List Nat × String)

namespace ScopeTree

/-- Declares a name on the scope that the node at the end of a path opens, if it opens one. -/
def declareAt (kind name : String) : List Nat → ScopeTree → ScopeTree
  | [], .mk s ts => .mk (s.map (·.declare name kind)) ts
  | i :: path, .mk s ts => .mk s (ts.modify i (declareAt kind name path))

end ScopeTree

namespace Scopes

/-- The scopes opened on the way down a path, innermost first, with their addresses; `here` is the way so far. -/
def framesFrom (outer : List (Address × Scope)) (here : List Nat) : ScopeTree → List Nat → List (Address × Scope)
  | t, [] => (t.scope.map (some here, ·)).toList ++ outer
  | t, i :: path =>
    match t.children[i]? with
    | some u => framesFrom ((t.scope.map (some here, ·)).toList ++ outer) (here ++ [i]) u path
    | none => (t.scope.map (some here, ·)).toList ++ outer

/-- The scopes around the node at the end of a path with their addresses, its own first and the program's last. -/
def framesAt (s : Scopes) (path : List Nat) : List (Address × Scope) := framesFrom [(none, s.program)] [] s.tree path

/-- What a name means at the end of a path: the scope that binds it, and the kind of the binding. -/
def resolve (s : Scopes) (path : List Nat) (x : String) : Option (Address × String) :=
  (s.framesAt path).findSome? (fun f => (f.2.find? x).map (f.1, ·))

/-- Declares a name on the scope at an address. -/
def declareAt (kind : String) (s : Scopes) (a : List Nat × String) : Scopes := ⟨s.program, s.tree.declareAt kind a.2 a.1⟩

def declareAll (kind : String) (s : Scopes) (added : Additions) : Scopes := added.foldl (declareAt kind) s

/-! ## Frames and chains -/

theorem own_map_snd (here : List Nat) (s : Option Scope) :
    ((s.map (some here, ·)).toList : List (Address × Scope)).map (·.2) = s.toList := by
  cases s <;> rfl

theorem framesFrom_map_snd : ∀ (outer : List (Address × Scope)) (here : List Nat) (t : ScopeTree) (path : List Nat),
    (framesFrom outer here t path).map (·.2) = chainFrom (outer.map (·.2)) t path
  | outer, here, t, [] => by rw [framesFrom, chainFrom, List.map_append, own_map_snd]
  | outer, here, t, i :: path => by
    rw [framesFrom, chainFrom]
    cases t.children[i]? with
    | none => rw [List.map_append, own_map_snd]
    | some u => simp only [framesFrom_map_snd _ _ u path, List.map_append, own_map_snd]

theorem framesAt_map_snd (s : Scopes) (path : List Nat) : (s.framesAt path).map (·.2) = s.chainAt path :=
  framesFrom_map_snd _ _ _ path

theorem findSome?_map_find? (x : String) : ∀ fs : List (Address × Scope),
    (fs.findSome? (fun f => (f.2.find? x).map (f.1, ·))).map (·.2) = Scope.lookup (fs.map (·.2)) x
  | [] => rfl
  | f :: fs => by
    simp only [List.findSome?_cons, List.map_cons, Scope.lookup]
    cases hf : f.2.find? x with
    | some k => rfl
    | none => exact findSome?_map_find? x fs

/-- A name means what the chain says. -/
theorem resolve_map_snd (s : Scopes) (path : List Nat) (x : String) :
    (s.resolve path x).map (·.2) = Scope.lookup (s.chainAt path) x := by
  rw [resolve, findSome?_map_find?, framesAt_map_snd]

theorem isBoundAt_eq_false_iff (s : Scopes) (path : List Nat) (x : String) :
    s.isBoundAt path x = false ↔ ∀ f ∈ s.framesAt path, f.2.find? x = none := by
  rw [isBoundAt, ← framesAt_map_snd, Scope.isBound_eq_false_iff, List.forall_mem_map]

/-! ## Addresses -/

theorem snoc_not_prefix_self (path : List Nat) (i : Nat) : ¬ path ++ [i] <+: path := fun h => by
  have := h.length_le
  rw [List.length_append, List.length_singleton] at this
  omega

/-- The scopes opened on the way down come before those around, and have their addresses on the way. -/
theorem framesFrom_eq_append : ∀ (outer : List (Address × Scope)) (here : List Nat) (t : ScopeTree) (path : List Nat),
    ∃ inner, framesFrom outer here t path = inner ++ outer ∧
      ∀ f ∈ inner, ∃ q, f.1 = some q ∧ here <+: q ∧ q <+: here ++ path
  | outer, here, t, path => by
    have hown : ∀ f ∈ (t.scope.map (some here, ·)).toList, ∃ q, f.1 = some q ∧ here <+: q ∧ q <+: here ++ path := by
      intro f hf
      obtain ⟨s, -, rfl⟩ := Option.map_eq_some_iff.1 (Option.mem_toList.1 hf)
      exact ⟨here, rfl, List.prefix_refl _, List.prefix_append _ _⟩
    cases path with
    | nil => exact ⟨_, rfl, hown⟩
    | cons i path =>
      rw [framesFrom]
      cases t.children[i]? with
      | none => exact ⟨_, rfl, hown⟩
      | some u =>
        obtain ⟨inner, heq, hinner⟩ := framesFrom_eq_append ((t.scope.map (some here, ·)).toList ++ outer) (here ++ [i]) u path
        refine ⟨inner ++ (t.scope.map (some here, ·)).toList, by rw [List.append_assoc]; exact heq, fun f hf => ?_⟩
        rcases List.mem_append.1 hf with hf | hf
        · obtain ⟨q, hq, h₁, h₂⟩ := hinner f hf
          exact ⟨q, hq, (List.prefix_append _ _).trans h₁, by rwa [List.append_assoc] at h₂⟩
        · exact hown f hf

theorem framesFrom_append : ∀ (outer : List (Address × Scope)) (here : List Nat) (t : ScopeTree) (path rel : List Nat),
    ∃ inner, framesFrom outer here t (path ++ rel) = inner ++ framesFrom outer here t path ∧
      ∀ f ∈ inner, ∃ q, f.1 = some q ∧ here ++ path <+: q ∧ q ≠ here ++ path
  | outer, here, t, [], [] => ⟨[], rfl, fun _ hf => by cases hf⟩
  | outer, here, t, [], i :: rel => by
    rw [List.nil_append, List.append_nil, framesFrom, framesFrom]
    cases t.children[i]? with
    | none => exact ⟨[], rfl, fun _ hf => by cases hf⟩
    | some u =>
      obtain ⟨inner, heq, hinner⟩ := framesFrom_eq_append ((t.scope.map (some here, ·)).toList ++ outer) (here ++ [i]) u rel
      refine ⟨inner, heq, fun f hf => ?_⟩
      obtain ⟨q, hq, hlong, -⟩ := hinner f hf
      exact ⟨q, hq, (List.prefix_append _ _).trans hlong, fun e => snoc_not_prefix_self here i (e ▸ hlong)⟩
  | outer, here, t, i :: path, rel => by
    rw [List.cons_append, framesFrom, framesFrom]
    cases t.children[i]? with
    | none => exact ⟨[], rfl, fun _ hf => by cases hf⟩
    | some u =>
      obtain ⟨inner, heq, hinner⟩ :=
        framesFrom_append ((t.scope.map (some here, ·)).toList ++ outer) (here ++ [i]) u path rel
      refine ⟨inner, heq, fun f hf => ?_⟩
      obtain ⟨q, hq, hlong, hne⟩ := hinner f hf
      rw [List.append_assoc] at hlong hne
      exact ⟨q, hq, hlong, hne⟩

/-- At a path and further in: the scopes in front are opened strictly below the path. -/
theorem framesAt_append (s : Scopes) (path rel : List Nat) :
    ∃ inner, s.framesAt (path ++ rel) = inner ++ s.framesAt path ∧
      ∀ f ∈ inner, ∃ q, f.1 = some q ∧ path <+: q ∧ q ≠ path :=
  framesFrom_append [(none, s.program)] [] s.tree path rel

theorem prefix_of_mem_framesAt {s : Scopes} {path : List Nat} {f : Address × Scope} (hf : f ∈ s.framesAt path)
    {q : List Nat} (hq : f.1 = some q) : q <+: path := by
  obtain ⟨inner, heq, hinner⟩ := framesFrom_eq_append [(none, s.program)] [] s.tree path
  rw [framesAt, heq] at hf
  rcases List.mem_append.1 hf with hf | hf
  · obtain ⟨q', hq', -, h⟩ := hinner f hf
    rw [hq, Option.some.injEq] at hq'
    rw [hq']; exact h
  · rw [List.mem_singleton.1 hf] at hq; cases hq

/-! ## Names declared on a tree of scopes -/

/-- What becomes of a frame when a name is declared on the scope at an address. -/
def declareOn (kind : String) (a : List Nat × String) (f : Address × Scope) : Address × Scope :=
  if f.1 = some a.1 then (f.1, f.2.declare a.2 kind) else f

@[simp] theorem declareOn_fst (kind : String) (a : List Nat × String) (f : Address × Scope) :
    (declareOn kind a f).1 = f.1 := by
  unfold declareOn; split <;> rfl

theorem declareOn_of_ne {kind : String} {a : List Nat × String} {f : Address × Scope} (h : f.1 ≠ some a.1) :
    declareOn kind a f = f := if_neg h

theorem map_declareOn_own (kind : String) (a : List Nat × String) {here : List Nat} (h : a.1 ≠ here) (s : Option Scope) :
    ((s.map (some here, ·)).toList : List (Address × Scope)).map (declareOn kind a) = (s.map (some here, ·)).toList := by
  cases s with
  | none => rfl
  | some s => simp [declareOn, Ne.symm h]

theorem framesFrom_map_of_not_prefix (kind : String) (a : List Nat × String) : ∀ (outer : List (Address × Scope))
    (here : List Nat) (t : ScopeTree) (path : List Nat), ¬ here <+: a.1 →
    framesFrom (outer.map (declareOn kind a)) here t path = (framesFrom outer here t path).map (declareOn kind a)
  | outer, here, t, path, h => by
    have hown := map_declareOn_own kind a (fun e => h (e ▸ List.prefix_refl _)) t.scope
    cases path with
    | nil => rw [framesFrom, framesFrom, List.map_append, hown]
    | cons i path =>
      rw [framesFrom, framesFrom]
      cases t.children[i]? with
      | none => simp only [List.map_append, hown]
      | some u =>
        simp only
        rw [← framesFrom_map_of_not_prefix kind a _ (here ++ [i]) u path
          (fun hp => h ((List.prefix_append _ _).trans hp)), List.map_append, hown]

/-- A name declared on a scope of a tree is declared on the frame there and on no other. -/
theorem framesFrom_declareAt (kind name : String) : ∀ (outer : List (Address × Scope)) (here : List Nat) (t : ScopeTree)
    (q path : List Nat),
    framesFrom (outer.map (declareOn kind (here ++ q, name))) here (t.declareAt kind name q) path =
      (framesFrom outer here t path).map (declareOn kind (here ++ q, name))
  | outer, here, .mk s ts, [], path => by
    rw [List.append_nil]
    have hown : ((s.map (·.declare name kind)).map (some here, ·)).toList =
        ((s.map (some here, ·)).toList : List (Address × Scope)).map (declareOn kind (here, name)) := by
      cases s with
      | none => rfl
      | some s => simp [declareOn]
    cases path with
    | nil =>
      simp only [ScopeTree.declareAt, framesFrom, ScopeTree.scope, List.map_append, hown]
    | cons i path =>
      simp only [ScopeTree.declareAt, framesFrom, ScopeTree.scope, ScopeTree.children, hown]
      cases ts[i]? with
      | none => simp only [List.map_append]
      | some u =>
        simp only [← List.map_append]
        exact framesFrom_map_of_not_prefix kind (here, name) _ (here ++ [i]) u path
          (snoc_not_prefix_self here i)
  | outer, here, .mk s ts, j :: q, path => by
    have hown := map_declareOn_own kind (here ++ j :: q, name) (show here ++ j :: q ≠ here by simp) s
    cases path with
    | nil => simp only [ScopeTree.declareAt, framesFrom, ScopeTree.scope, List.map_append, hown]
    | cons i path =>
      simp only [ScopeTree.declareAt, framesFrom, ScopeTree.scope, ScopeTree.children, List.getElem?_modify]
      cases ts[i]? with
      | none => simp [hown]
      | some u =>
        rw [← hown, ← List.map_append]
        by_cases hij : j = i
        · subst hij
          -- Both ways go through the same child.
          have := framesFrom_declareAt kind name ((s.map (some here, ·)).toList ++ outer) (here ++ [j]) u q path
          rw [List.append_assoc] at this
          simpa [hown] using this
        · -- The declaration goes through another child, so the frames on this way are left alone.
          have := framesFrom_map_of_not_prefix kind (here ++ j :: q, name) ((s.map (some here, ·)).toList ++ outer)
            (here ++ [i]) u path (fun hp => by
              rw [List.prefix_append_right_inj, List.cons_prefix_cons] at hp; exact hij hp.1.symm)
          simpa [hij, hown] using this

theorem framesAt_declareAt (kind : String) (s : Scopes) (a : List Nat × String) (path : List Nat) :
    (s.declareAt kind a).framesAt path = (s.framesAt path).map (declareOn kind a) :=
  framesFrom_declareAt kind a.2 [(none, s.program)] [] s.tree a.1 path

theorem framesAt_declareAll (kind : String) : ∀ (added : Additions) (s : Scopes) (path : List Nat),
    (s.declareAll kind added).framesAt path =
      (s.framesAt path).map (fun f => added.foldl (fun f a => declareOn kind a f) f)
  | [], s, path => (List.map_id _).symm
  | a :: added, s, path => by
    rw [declareAll, List.foldl_cons, ← declareAll, framesAt_declareAll kind added _ path, framesAt_declareAt, List.map_map]
    rfl

theorem foldl_declareOn_fst (kind : String) : ∀ (added : Additions) (f : Address × Scope),
    (added.foldl (fun f a => declareOn kind a f) f).1 = f.1
  | [], _ => rfl
  | a :: added, f => (foldl_declareOn_fst kind added _).trans (declareOn_fst kind a f)

theorem find?_foldl_declareOn (kind : String) (x : String) : ∀ (added : Additions) (f : Address × Scope),
    (∀ a ∈ added, a.2 ≠ "") →
    (added.foldl (fun f a => declareOn kind a f) f).2.find? x =
      (f.2.find? x).or (if added.any (fun a => f.1 == some a.1 && x == a.2) then some kind else none)
  | [], f, _ => by simp
  | (q, name) :: added, f, hne => by
    rw [List.foldl_cons, find?_foldl_declareOn kind x added _ (fun a ha => hne a (List.mem_cons_of_mem _ ha)),
      declareOn_fst, List.any_cons]
    have hname : name ≠ "" := hne (q, name) List.mem_cons_self
    by_cases hq : f.1 = some q
    · rw [show declareOn kind (q, name) f = (f.1, f.2.declare name kind) from if_pos hq,
        Scope.find?_declare _ _ _ hname, Option.or_assoc]
      by_cases hx : x = name
      · subst hx; simp [hq]
      · simp [hx, hq]
    · rw [declareOn_of_ne hq, beq_false_of_ne hq, Bool.false_and, Bool.false_or]

/-! ## Frames of an analysed tree -/

theorem children_analyze (src : Bytes) (isBody : Bool) (l : Label) (cs : List Node) :
    (Scope.analyze src isBody (.mk l cs)).2.children = (Scope.analyzeAll src (Scope.functionKinds.contains l.kind) cs).2 := by
  rw [Scope.analyze]
  cases Scope.opens isBody (.mk l cs) <;> rfl

theorem getElem?_analyzeAll (src : Bytes) : ∀ (seeksBody : Bool) (cs : List Node) (i : Nat) (c : Node), cs[i]? = some c →
    ∃ isBody, (Scope.analyzeAll src seeksBody cs).2[i]? = some (Scope.analyze src isBody c).2
  | _, [], i, c, h => by simp at h
  | seeksBody, c₀ :: cs, 0, c, h => by
    rw [List.getElem?_cons_zero, Option.some.injEq] at h
    subst h
    rw [Scope.analyzeAll]
    exact ⟨_, rfl⟩
  | seeksBody, c₀ :: cs, i + 1, c, h => by
    rw [Scope.analyzeAll]
    exact getElem?_analyzeAll src _ cs i c h

theorem opens_function {isBody : Bool} {n : Node} (h : Scope.functionKinds.contains n.kind = true) :
    Scope.opens isBody n = some "function" := if_pos h

theorem framesFrom_function (src : Bytes) : ∀ (path here : List Nat) (outer : List (Address × Scope)) (isBody : Bool) (n m : Node),
    n.at? path = some m → Scope.functionKinds.contains m.kind = true →
    ∃ sc rest, framesFrom outer here (Scope.analyze src isBody n).2 path = (some (here ++ path), sc) :: rest
  | [], here, outer, isBody, .mk l cs, m, hat, hkind => by
    rw [Node.at?_nil, Option.some.injEq] at hat
    rw [framesFrom, Scope.analyze, opens_function (by rw [hat]; exact hkind), List.append_nil]
    exact ⟨_, outer, rfl⟩
  | i :: path, here, outer, isBody, .mk l cs, m, hat, hkind => by
    rw [Node.at?_cons] at hat
    obtain ⟨c, hc, hat⟩ := Option.bind_eq_some_iff.1 hat
    obtain ⟨b, hb⟩ := getElem?_analyzeAll src (Scope.functionKinds.contains l.kind) cs i c hc
    rw [framesFrom, children_analyze, hb]
    obtain ⟨sc, rest, h⟩ := framesFrom_function src path (here ++ [i]) _ b c m hat hkind
    exact ⟨sc, rest, by rw [show here ++ i :: path = here ++ [i] ++ path by rw [List.append_assoc]; rfl]; exact h⟩

/-- **At a function the innermost scope is the one that it opens.** -/
theorem framesAt_function {src : Bytes} {root : Node} {s : Scopes} (h : ofTree src root = .ok s) {path : List Nat} {m : Node}
    (hat : root.at? path = some m) (hkind : Scope.functionKinds.contains m.kind = true) :
    ∃ sc rest, s.framesAt path = (some path, sc) :: rest := by
  unfold ofTree at h
  split at h
  · cases h
  · rw [← Except.ok.inj h]
    exact framesFrom_function src path [] _ false root m hat hkind

end Scopes
end TagAlias
