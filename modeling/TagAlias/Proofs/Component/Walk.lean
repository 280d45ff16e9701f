import TagAlias.Component.Survey
import TagAlias.Proofs.Scope.Frames
/-!
# Component methods on the way down

The survey finds methods by their paths and looks the scopes of a tag up by its path.  The same comes out where the scopes
around are handed down with the walk (`methodsUnder_eq`), and a tree with other paths can be compared.  Beside the scopes
the walk hands down names: those that `supply` puts into the bodies of the component methods around.
-/
namespace TagAlias
namespace Component

/-- Whether the node is a component method with a scope of its own. -/
def isOwnScope (src : Bytes) (stem : String) (parent : Option String) (n : Node) : Bool :=
  n.kind == "method_definition" && (methodName? src stem parent n).toOption.join.isSome

theorem isOwnScope_iff {src : Bytes} {stem : String} {parent : Option String} {n : Node} : isOwnScope src stem parent n = true ↔
    n.kind = "method_definition" ∧ ∃ name, methodName? src stem parent n = .ok (some name) := by
  rw [isOwnScope, Bool.and_eq_true, beq_iff_eq]
  refine and_congr_right (fun _ => ?_)
  cases methodName? src stem parent n with
  | error f => simp [Except.toOption]
  | ok found => cases found <;> simp [Except.toOption]

/-- The names put into the body of a node, if it is a component method with a scope of its own. -/
def supplied (supply : Node → List String) (src : Bytes) (stem : String) (parent : Option String) (n : Node) : List String :=
  if isOwnScope src stem parent n then ((n.child? "body").map supply).getD [] else []

/-- The names put into the bodies of the component methods on a path, the last first. -/
def suppliedOn (supply : Node → List String) (src : Bytes) (stem : String) (known : List String) (parent : Option String) :
    Node → List Nat → List String
  | n, [] => supplied supply src stem parent n ++ known
  | n, i :: path =>
    match n.children[i]? with
    | some c => suppliedOn supply src stem (supplied supply src stem parent n ++ known) (some n.kind) c path
    | none => supplied supply src stem parent n ++ known

theorem suppliedOn_nil (supply : Node → List String) (src : Bytes) (stem : String) (known : List String)
    (parent : Option String) (n : Node) :
    suppliedOn supply src stem known parent n [] = supplied supply src stem parent n ++ known := by
  cases n; rfl

theorem suppliedOn_cons (supply : Node → List String) (src : Bytes) (stem : String) (known : List String)
    (parent : Option String) (n : Node) (i : Nat) (path : List Nat) :
    suppliedOn supply src stem known parent n (i :: path) = match n.children[i]? with
      | some c => suppliedOn supply src stem (supplied supply src stem parent n ++ known) (some n.kind) c path
      | none => supplied supply src stem parent n ++ known := by
  cases n; rfl

/-- The scopes at a node, where `outer` are those around it. -/
def chainOf (src : Bytes) (outer : List Scope) (isBody : Bool) (n : Node) : List Scope :=
  (Scope.analyze src isBody n).2.scope.toList ++ outer

mutual

/-- The references of a method, where `outer` are the scopes around the node. -/
def referencesUnder (src : Bytes) (stem : String) (outer : List Scope) (isBody : Bool) : Node → List (Except Failure TagReference)
  | .mk l cs =>
    tagReferences src (fun _ => Scope.isBound (chainOf src outer isBody (.mk l cs))) [] (.mk l cs)
      ++ referencesUnderAll src stem (chainOf src outer isBody (.mk l cs)) l.kind (Scope.functionKinds.contains l.kind) cs

def referencesUnderAll (src : Bytes) (stem : String) (outer : List Scope) (parent : String) (seeksBody : Bool) :
    List Node → List (Except Failure TagReference)
  | [] => []
  | n :: r =>
    let isBody := seeksBody && n.field == "body"
    (match methodName? src stem (some parent) n with
      | .error f => [.error (.refused (.undecodable f))]
      | .ok (some _) => []
      | .ok none => referencesUnder src stem outer isBody n)
    ++ referencesUnderAll src stem outer parent (seeksBody && !isBody) r

end

/-- The component method at a node, where `outer` are the scopes around it. -/
def methodHere (src : Bytes) (stem : String) (outer : List Scope) (isBody : Bool) (parent : Option String) (n : Node) :
    Option (Except Failure (ComponentMethod × List (Except Failure TagReference))) :=
  match methodName? src stem parent n with
  | .error f => some (.error (.refused (.undecodable f)))
  | .ok none => none
  | .ok (some name) => some ((method src name n).map (fun m => (m, referencesUnder src stem outer isBody n)))

/-- A result for a component method, with the names put into the bodies of those around it and its own. -/
abbrev Finding := Except Failure (ComponentMethod × List (Except Failure TagReference)) × List String

mutual

/-- The component methods of a node and all below it, where `outer` are the scopes and `known` the names around it. -/
def methodsUnder (supply : Node → List String) (src : Bytes) (stem : String) (outer : List Scope) (known : List String)
    (isBody : Bool) (parent : Option String) : Node → List Finding
  | .mk l cs =>
    let known' := supplied supply src stem parent (.mk l cs) ++ known
    ((methodHere src stem outer isBody parent (.mk l cs)).map (·, known')).toList
      ++ methodsUnderAll supply src stem (chainOf src outer isBody (.mk l cs)) known' (Scope.functionKinds.contains l.kind)
        l.kind cs

def methodsUnderAll (supply : Node → List String) (src : Bytes) (stem : String) (outer : List Scope) (known : List String)
    (seeksBody : Bool) (parent : String) : List Node → List Finding
  | [] => []
  | n :: r =>
    let isBody := seeksBody && n.field == "body"
    methodsUnder supply src stem outer known isBody (some parent) n
      ++ methodsUnderAll supply src stem outer known (seeksBody && !isBody) parent r

end

/-! ## Paths and the walk -/

theorem tagReferences_congr {src : Bytes} {binds binds' : List Nat → String → Bool} {path path' : List Nat}
    (h : ∀ x, binds path x = binds' path' x) (n : Node) :
    tagReferences src binds path n = tagReferences src binds' path' n := by
  unfold tagReferences
  simp only [h]

/-- What binds below a node, by the ways from it. -/
def BindsFrom (binds : List Nat → String → Bool) (outer : List Scope) (path : List Nat) (t : ScopeTree) : Prop :=
  ∀ rel x, binds (path ++ rel) x = Scope.isBound (Scopes.chainFrom outer t rel) x

theorem BindsFrom.here {src : Bytes} {binds : List Nat → String → Bool} {outer : List Scope} {path : List Nat}
    {isBody : Bool} {n : Node} (h : BindsFrom binds outer path (Scope.analyze src isBody n).2) (x : String) :
    binds path x = Scope.isBound (chainOf src outer isBody n) x := by
  have := h [] x
  rwa [List.append_nil, Scopes.chainFrom] at this

theorem BindsFrom.child {src : Bytes} {binds : List Nat → String → Bool} {outer : List Scope} {path : List Nat}
    {isBody : Bool} {l : Label} {cs : List Node} (h : BindsFrom binds outer path (Scope.analyze src isBody (.mk l cs)).2)
    (i : Nat) (u : ScopeTree) (hu : (Scope.analyzeAll src (Scope.functionKinds.contains l.kind) cs).2[i]? = some u) :
    BindsFrom binds (chainOf src outer isBody (.mk l cs)) (path ++ [i]) u := by
  intro rel x
  have := h (i :: rel) x
  rw [Scopes.chainFrom, Scopes.children_analyze, hu] at this
  rw [List.append_assoc]; exact this

mutual

theorem references_eq_under (src : Bytes) (stem : String) (binds : List Nat → String → Bool) : ∀ (outer : List Scope)
    (path : List Nat) (isBody : Bool) (n : Node), BindsFrom binds outer path (Scope.analyze src isBody n).2 →
    references src stem binds path n = referencesUnder src stem outer isBody n
  | outer, path, isBody, .mk l cs, h => by
    rw [references, referencesUnder, referencesIn_eq_under src stem binds _ path l.kind 0 _ cs
      (fun i u hu => by rw [Nat.zero_add]; exact h.child i u hu)]
    exact congrArg (· ++ _) (tagReferences_congr h.here _)

theorem referencesIn_eq_under (src : Bytes) (stem : String) (binds : List Nat → String → Bool) : ∀ (outer : List Scope)
    (path : List Nat) (parent : String) (i : Nat) (seeksBody : Bool) (cs : List Node),
    (∀ j u, (Scope.analyzeAll src seeksBody cs).2[j]? = some u → BindsFrom binds outer (path ++ [i + j]) u) →
    referencesIn src stem binds parent path i cs = referencesUnderAll src stem outer parent seeksBody cs
  | _, _, _, _, _, [], _ => by rw [referencesIn, referencesUnderAll]
  | outer, path, parent, i, seeksBody, c :: cs, h => by
    have hhere := references_eq_under src stem binds outer (path ++ [i]) (seeksBody && c.field == "body") c
      (h 0 _ (by rw [Scope.analyzeAll]; rfl))
    have hrest := referencesIn_eq_under src stem binds outer path parent (i + 1)
      (seeksBody && !(seeksBody && c.field == "body")) cs (fun j u hu => by
        rw [Nat.add_assoc, Nat.add_comm 1 j]
        exact h (j + 1) u (by rw [Scope.analyzeAll]; exact hu))
    rw [referencesIn, referencesUnderAll]
    refine congr (congrArg HAppend.hAppend ?_) hrest
    cases methodName? src stem (some parent) c with
    | error f => rfl
    | ok found =>
      cases found with
      | none => exact hhere
      | some name => rfl

end

theorem methodAt_eq_here {src : Bytes} {stem : String} {binds : List Nat → String → Bool} {outer : List Scope}
    {parent : Option String} {path : List Nat} {isBody : Bool} {n : Node}
    (h : BindsFrom binds outer path (Scope.analyze src isBody n).2) :
    Survey.methodAt src stem binds ⟨parent, path, n⟩ = methodHere src stem outer isBody parent n := by
  unfold Survey.methodAt methodHere
  have hrefs := references_eq_under src stem binds outer path isBody n h
  cases methodName? src stem parent n with
  | error f => rfl
  | ok found =>
    cases found with
    | none => rfl
    | some name => exact congrArg (fun refs => some ((method src name n).map (fun m => (m, refs)))) hrefs

/-- What is found at a place, with the names held there. -/
def findingAt (src : Bytes) (stem : String) (binds : List Nat → String → Bool) (held : List Nat → List String) (p : Place) :
    Option Finding := (Survey.methodAt src stem binds p).map (·, held p.path)

mutual

theorem methodsUnder_eq (supply : Node → List String) (src : Bytes) (stem : String) (binds : List Nat → String → Bool)
    (held : List Nat → List String) : ∀ (outer : List Scope) (known : List String) (path : List Nat) (isBody : Bool)
    (parent : Option String) (n : Node), BindsFrom binds outer path (Scope.analyze src isBody n).2 →
    (∀ rel, held (path ++ rel) = suppliedOn supply src stem known parent n rel) →
    methodsUnder supply src stem outer known isBody parent n =
      (n.places parent path).filterMap (findingAt src stem binds held)
  | outer, known, path, isBody, parent, .mk l cs, h, hheld => by
    have hhere : held path = supplied supply src stem parent (.mk l cs) ++ known := by
      have := hheld []
      rwa [List.append_nil] at this
    rw [methodsUnder, Node.places, List.filterMap_cons, methodsUnderAll_eq supply src stem binds held
      (chainOf src outer isBody (.mk l cs)) (supplied supply src stem parent (.mk l cs) ++ known) path l.kind 0
      (Scope.functionKinds.contains l.kind) cs (fun i u hu => by rw [Nat.zero_add]; exact h.child i u hu)
      (fun j c hc rel => by
        rw [Nat.zero_add, List.append_assoc]
        exact (hheld (j :: rel)).trans (by rw [suppliedOn_cons]; simp only [Node.children, hc]; rfl))]
    simp only [findingAt, methodAt_eq_here h, hhere]
    cases methodHere src stem outer isBody parent (.mk l cs) <;> rfl

theorem methodsUnderAll_eq (supply : Node → List String) (src : Bytes) (stem : String) (binds : List Nat → String → Bool)
    (held : List Nat → List String) : ∀ (outer : List Scope) (known : List String) (path : List Nat) (parent : String)
    (i : Nat) (seeksBody : Bool) (cs : List Node),
    (∀ j u, (Scope.analyzeAll src seeksBody cs).2[j]? = some u → BindsFrom binds outer (path ++ [i + j]) u) →
    (∀ j c, cs[j]? = some c → ∀ rel, held (path ++ [i + j] ++ rel) = suppliedOn supply src stem known (some parent) c rel) →
    methodsUnderAll supply src stem outer known seeksBody parent cs =
      (Node.placesAll parent path i cs).filterMap (findingAt src stem binds held)
  | _, _, _, _, _, _, [], _, _ => by rw [methodsUnderAll, Node.placesAll]; rfl
  | outer, known, path, parent, i, seeksBody, c :: cs, h, hheld => by
    rw [methodsUnderAll, Node.placesAll, List.filterMap_append,
      methodsUnder_eq supply src stem binds held outer known (path ++ [i]) (seeksBody && c.field == "body") (some parent) c
        (h 0 _ (by rw [Scope.analyzeAll]; rfl)) (hheld 0 c rfl),
      methodsUnderAll_eq supply src stem binds held outer known path parent (i + 1)
        (seeksBody && !(seeksBody && c.field == "body")) cs
        (fun j u hu => by
          rw [Nat.add_assoc, Nat.add_comm 1 j]
          exact h (j + 1) u (by rw [Scope.analyzeAll]; exact hu))
        (fun j c' hc rel => by
          rw [Nat.add_assoc, Nat.add_comm 1 j]
          exact hheld (j + 1) c' hc rel)]

end

/-- **What the survey finds at the places of a tree is what the walk finds.** -/
theorem filterMap_findingAt {src : Bytes} {root : Node} {s : Scopes} (h : Scopes.ofTree src root = .ok s)
    (supply : Node → List String) (stem : String) :
    (root.places none []).filterMap (findingAt src stem s.isBoundAt (suppliedOn supply src stem [] none root)) =
      methodsUnder supply src stem [s.program] [] false none root := by
  unfold Scopes.ofTree at h
  split at h
  · cases h
  · rw [← Except.ok.inj h]
    refine (methodsUnder_eq supply src stem _ _ _ [] [] false none root ?_ ?_).symm
    · intro rel x; rw [List.nil_append]; rfl
    · intro rel; rw [List.nil_append]

end Component
end TagAlias
