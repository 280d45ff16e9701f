import TagAlias.Component.Basic
import TagAlias.Failure
/-!
# Plans of insertions

A plan says at which offsets aliases are declared and for which names.  It has one point for an offset; the first method
that asks for the point settles everything about it but its names, which grow at their end.
-/
namespace TagAlias

/-- Aliases to be declared at an offset. -/
structure InsertionPoint where
  offset : Int
  names : List String
  /-- What follows each declaration. -/
  separator : String
  /-- What stands before the first. -/
  lead : String
  method : String
  deriving DecidableEq, Repr

namespace InsertionPoint

/-- Adds a name unless it is there. -/
def add (p : InsertionPoint) (name : String) : InsertionPoint :=
  if p.names.contains name then p else { p with names := p.names ++ [name] }

def forMethod (offset : Int) (m : ComponentMethod) : InsertionPoint := ⟨offset, [], m.separator, m.lead, m.name⟩

end InsertionPoint

/-- Insertion points, in the order in which they were asked for. -/
structure Plan where
  points : List InsertionPoint
  deriving DecidableEq, Repr

namespace Plan

def empty : Plan := ⟨[]⟩

def size (p : Plan) : Nat := p.points.length

def point? (p : Plan) (offset : Int) : Option InsertionPoint := p.points.find? (·.offset == offset)

/-- Sees to it that there is a point for a method at an offset. -/
def openAt (p : Plan) (offset : Int) (m : ComponentMethod) : Plan :=
  if (p.point? offset).isSome then p else ⟨p.points ++ [.forMethod offset m]⟩

/-- Sees to it that there is a point for a method, which needs a body for it. -/
def openFor (p : Plan) (m : ComponentMethod) : Except Refusal Plan :=
  match m.bodyStart with
  | some offset => .ok (p.openAt offset m)
  | none => .error (.bodiless m.name)

def hasName (p : Plan) (offset : Int) (name : String) : Bool := (p.point? offset).any (·.names.contains name)

/-- Adds a name to the point at an offset, if there is a point. -/
def add (p : Plan) (offset : Int) (name : String) : Plan :=
  ⟨p.points.map (fun q => if q.offset == offset then q.add name else q)⟩

def descending (p : Plan) : List InsertionPoint := p.points.mergeSort (fun a b => b.offset ≤ a.offset)

def ascending (p : Plan) : List InsertionPoint := p.points.mergeSort (fun a b => a.offset ≤ b.offset)

def isEmpty (p : Plan) : Bool := p.points.all (·.names.isEmpty)

def gather (known : List (String × List String)) (p : InsertionPoint) : List (String × List String) :=
  if known.any (·.1 == p.method) then
    known.map (fun e => if e.1 == p.method then (e.1, e.2 ++ p.names) else e)
  else known ++ [(p.method, p.names)]

/-- The names declared in each method, in order of the offsets. -/
def aliases (p : Plan) : List (String × List String) := p.ascending.foldl gather []

end Plan

end TagAlias
