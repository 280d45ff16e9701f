import TagAlias.Component.Tag
import TagAlias.Scope.Analysis
/-!
# The component methods of a module

A survey lists the component methods of a tree with their references to tags, in order of the text.  Where something in
it cannot be read, it ends there and keeps the fault; what comes before can still be used.
-/
namespace TagAlias

/-- Component methods with their references, up to a fault if there is one. -/
structure Survey where
  methods : List (ComponentMethod × List TagReference)
  fault : Option Failure

namespace Survey

/-- What comes before the first error, and the error. -/
def upToError {α : Type} : List (Except Failure α) → List α × Option Failure
  | [] => ([], none)
  | .error e :: _ => ([], some e)
  | .ok a :: r => (a :: (upToError r).1, (upToError r).2)

/-- The same for methods with their references: an error in the references of a method comes after the method. -/
def ofResults : List (Except Failure (ComponentMethod × List (Except Failure TagReference))) → Survey
  | [] => ⟨[], none⟩
  | .error e :: _ => ⟨[], some e⟩
  | .ok (m, refs) :: r =>
    match upToError refs with
    | (found, some e) => ⟨[(m, found)], some e⟩
    | (found, none) => ⟨(m, found) :: (ofResults r).methods, (ofResults r).fault⟩

def methodAt (src : Bytes) (stem : String) (binds : List Nat → String → Bool) (p : Place) :
    Option (Except Failure (ComponentMethod × List (Except Failure TagReference))) :=
  match Component.methodName? src stem p.parent p.node with
  | .error f => some (.error (.refused (.undecodable f)))
  | .ok none => none
  | .ok (some name) =>
    some ((Component.method src name p.node).map
      (fun m => (m, Component.references src stem binds p.path p.node)))

/-- The references as far as they can be used: the scopes have to be known for those that `asks` picks. -/
def withScopes (scopes : Except Utf8.Fault Scopes) (asks : TagReference → Bool) (refs : List (Except Failure TagReference)) :
    List (Except Failure TagReference) :=
  match scopes with
  | .ok _ => refs
  | .error f => refs.map (fun r => r.bind (fun t => if asks t then .error (.refused (.undecodable f)) else .ok t))

/-- The component methods of a tree whose names begin with the stem. -/
def ofTree (src : Bytes) (stem : String) (asks : TagReference → Bool) (root : Node) : Survey :=
  let scopes := Scopes.ofTree src root
  let binds := match scopes with
    | .ok s => s.isBoundAt
    | .error _ => fun _ _ => false
  -- Without scopes the references stay as they are but for those that scopes decide about.
  ofResults (((root.places none []).filterMap (methodAt src stem binds)).map
    (fun m => m.map (fun (m, refs) => (m, withScopes scopes asks refs))))

end Survey

end TagAlias
