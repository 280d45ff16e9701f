import TagAlias.Scope.Basic
import TagAlias.Scope.Declarations
/-!
# Lexical scopes of a tree

Every node that opens a scope gets the declarations of its subtree that reach it: its own, those made around nothing
nearer, and, if it is a function or the program, the variables that no function nearer takes.  What is not caught goes on
to the scopes outside.  A binding holds throughout its scope, wherever in it the declaration stands.

`Scopes.chainAt` reads off the chain of scopes around a node, given by its path from the root.
-/
namespace TagAlias

open Scope (Declaration Reach)

/-- The scopes opened in a tree, at the places of its nodes. -/
inductive ScopeTree where
  | mk (scope : Option Scope) (children : List ScopeTree)

namespace ScopeTree

def scope : ScopeTree → Option Scope
  | mk s _ => s

def children : ScopeTree → List ScopeTree
  | mk _ cs => cs

end ScopeTree

namespace Scope

/-- The declarations made at a node whose texts can all be read, none otherwise. -/
def readable (src : Bytes) (isBody : Bool) (n : Node) : List Declaration := ((declarations src isBody n).toOption).getD []

def asBindings (ds : List Declaration) : List (String × String) := ds.map (fun d => (d.name, d.kind))

/-- Whether a scope of the given kind catches a declaration that comes from below. -/
def catches (kind : String) (d : Declaration) : Bool :=
  match d.reach with
  | .own => false
  | .around => true
  | .variable_ => kind == "function" || kind == "program"

mutual

/-- The declarations that leave a subtree, in order, and the scopes opened in it. -/
def analyze (src : Bytes) (isBody : Bool) : Node → List Declaration × ScopeTree
  | .mk l cs =>
    let n := Node.mk l cs
    let here := readable src isBody n
    let below := analyzeAll src (functionKinds.contains l.kind) cs
    match opens isBody n with
    | none => (here.filter (·.reach != .own) ++ below.1, .mk none below.2)
    | some kind =>
      let caught := below.1.filter (catches kind)
      (here.filter (·.reach != .own) ++ below.1.filter (!catches kind ·),
        .mk (some ((Scope.empty kind).declareAll (asBindings (here.filter (·.reach == .own) ++ caught)))) below.2)

/-- The same for children, of which the first that fills the field `body` is the body of a function if `seeksBody`. -/
def analyzeAll (src : Bytes) (seeksBody : Bool) : List Node → List Declaration × List ScopeTree
  | [] => ([], [])
  | n :: r =>
    let isBody := seeksBody && n.field == "body"
    let first := analyze src isBody n
    let rest := analyzeAll src (seeksBody && !isBody) r
    (first.1 ++ rest.1, first.2 :: rest.2)

end

mutual

/-- The first fault in reading the declarations of a tree. -/
def fault? (src : Bytes) (isBody : Bool) : Node → Option Utf8.Fault
  | .mk l cs =>
    match declarations src isBody (.mk l cs) with
    | .error f => some f
    | .ok _ => faultIn? src (functionKinds.contains l.kind) cs

def faultIn? (src : Bytes) (seeksBody : Bool) : List Node → Option Utf8.Fault
  | [] => none
  | n :: r =>
    let isBody := seeksBody && n.field == "body"
    match fault? src isBody n with
    | some f => some f
    | none => faultIn? src (seeksBody && !isBody) r

end

end Scope

structure Scopes where
  program : Scope
  tree : ScopeTree

namespace Scopes

/-- Fails where the text of a declared name cannot be read. -/
def ofTree (src : Bytes) (root : Node) : Except Utf8.Fault Scopes :=
  match Scope.fault? src false root with
  | some f => .error f
  | none =>
    let (ds, tree) := Scope.analyze src false root
    .ok ⟨(Scope.empty "program").declareAll (Scope.asBindings ds), tree⟩

/-- The scopes opened on the way down a path, innermost first, in front of those around it. -/
def chainFrom (outer : List Scope) : ScopeTree → List Nat → List Scope
  | t, [] => t.scope.toList ++ outer
  | t, i :: path =>
    match t.children[i]? with
    | some u => chainFrom (t.scope.toList ++ outer) u path
    | none => t.scope.toList ++ outer

/-- The scopes around the node at the end of a path, its own first and the program last. -/
def chainAt (s : Scopes) (path : List Nat) : List Scope := chainFrom [s.program] s.tree path

def isBoundAt (s : Scopes) (path : List Nat) (name : String) : Bool := Scope.isBound (s.chainAt path) name

mutual

/-- The nodes that open a scope, parents first, with their scopes. -/
def opened : ScopeTree → Node → List (Node × Scope)
  | .mk s ts, n => (s.map (fun s => (n, s))).toList ++ openedAll ts n.children

def openedAll : List ScopeTree → List Node → List (Node × Scope)
  | t :: ts, n :: ns => opened t n ++ openedAll ts ns
  | _, _ => []

end

/-- The scope of the root and after it every scope opened below, each with its node.  A root that opens a scope of its
own has that one, any other the program's. -/
def listing (s : Scopes) (root : Node) : List (Node × Scope) :=
  (root, s.tree.scope.getD s.program) :: openedAll s.tree.children root.children

end Scopes

end TagAlias
