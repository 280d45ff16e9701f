import TagAlias.Text.Quoted
/-!
# Scopes

A scope holds the kinds of the names declared on it; the first declaration of a name counts.  Scopes are nested: a
chain is a scope with the scopes around it, innermost first, and a name means what the innermost scope that knows it
says.  A forest holds scopes that are opened one after the other, each inside one that is already open or inside none.
-/
namespace TagAlias

structure Scope where
  /-- What opened it: `function`, `block`, `class` or `program`. -/
  kind : String
  /-- Names and the kinds of their declarations, in order of declaration. -/
  bindings : List (String × String)
  deriving DecidableEq, Repr

namespace Scope

def empty (kind : String) : Scope := ⟨kind, []⟩

def find? (s : Scope) (name : String) : Option String := s.bindings.lookup name

/-- Declares a name, unless it is empty or declared already. -/
def declare (s : Scope) (name kind : String) : Scope :=
  if name.isEmpty || (s.find? name).isSome then s else { s with bindings := s.bindings ++ [(name, kind)] }

def declareAll (s : Scope) (ds : List (String × String)) : Scope := ds.foldl (fun s d => s.declare d.1 d.2) s

/-- Whether variables are declared on it from anywhere inside. -/
def takesVariables (s : Scope) : Bool := s.kind == "function" || s.kind == "program"

def sorted (s : Scope) : List (String × String) := s.bindings.mergeSort (fun a b => !(b.1 < a.1))

def display (s : Scope) : String :=
  "<Scope " ++ s.kind ++ " " ++ Text.bracketed (s.sorted.map (fun b => Text.quoted b.1)) ++ ">"

/-! ## Chains -/

/-- What a name means in the innermost of nested scopes. -/
def lookup (chain : List Scope) (name : String) : Option String := chain.findSome? (·.find? name)

def isBound (chain : List Scope) (name : String) : Bool := (lookup chain name).isSome

/-- The nearest scope that takes variables; without one, the outermost. -/
def variableScope : List Scope → Option Scope
  | [] => none
  | [s] => some s
  | s :: r => if s.takesVariables then some s else variableScope r

/-! ## Forests -/

/-- Scopes by number, each with the numbers of the scopes around it, its own first. -/
structure Forest where
  scopes : List (Scope × List Nat)
  deriving Repr

namespace Forest

def empty : Forest := ⟨[]⟩

def get? (f : Forest) (i : Nat) : Option Scope := f.scopes[i]?.map (·.1)

def lineage (f : Forest) (i : Nat) : List Nat := ((f.scopes[i]?).map (·.2)).getD []

def size (f : Forest) : Nat := f.scopes.length

/-- Opens a scope inside another or inside none; it gets the next number. -/
def openScope (f : Forest) (kind : String) (parent : Option Nat) : Forest :=
  ⟨f.scopes ++ [(Scope.empty kind, f.size :: (parent.map f.lineage).getD [])]⟩

def declare (f : Forest) (i : Nat) (name kind : String) : Forest :=
  ⟨f.scopes.modify i (fun e => (e.1.declare name kind, e.2))⟩

def chain (f : Forest) (i : Nat) : List Scope := (f.lineage i).filterMap f.get?

def lookup (f : Forest) (i : Nat) (name : String) : Option String := Scope.lookup (f.chain i) name

/-- The number of the nearest scope that takes variables; without one, of the outermost. -/
def variableScope (f : Forest) (i : Nat) : Option Nat :=
  go (f.lineage i)
where
  go : List Nat → Option Nat
    | [] => none
    | [j] => some j
    | j :: r => if (f.get? j).any Scope.takesVariables then some j else go r

end Forest

end Scope

end TagAlias
