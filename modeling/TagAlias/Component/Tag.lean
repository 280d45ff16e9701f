import TagAlias.Component.Method
/-!
# Tags of a component method

The tags of a method are the opening and self-closing elements below it, without those of component methods further
in, which have their own.  A tag counts by the root of its name, and only if that root is an identifier.
-/
namespace TagAlias

namespace Node

def memberKinds : List String := ["member_expression", "nested_identifier"]

mutual

/-- The root of a name, which a qualified name has as its object or as its first part. -/
def leftmost? : Node → Option Node
  | mk l cs =>
    if memberKinds.contains l.kind then
      (if cs.any (·.field == "object") then leftmostObject? cs else leftmostNamed? cs)
    else some (mk l cs)

def leftmostObject? : List Node → Option Node
  | [] => none
  | n :: r => if n.field == "object" then leftmost? n else leftmostObject? r

def leftmostNamed? : List Node → Option Node
  | [] => none
  | n :: r => if n.named then leftmost? n else leftmostNamed? r

end

end Node

namespace Component

def tagKinds : List String := ["jsx_opening_element", "jsx_self_closing_element"]

/-- The name of a tag and its root, if the node is a tag and the root is an identifier. -/
def tagRoot? (n : Node) : Option (Node × Node) :=
  if tagKinds.contains n.kind then
    match n.child? "name" with
    | some name =>
      match name.leftmost? with
      | some root => if root.kind == "identifier" then some (name, root) else none
      | none => none
    | none => none
  else none

/-- The reference that a node makes as a tag, at the end of a path; `binds` tells which names are bound where. -/
def tagReferences (src : Bytes) (binds : List Nat → String → Bool) (path : List Nat) (n : Node) :
    List (Except Failure TagReference) :=
  match tagRoot? n with
  | none => []
  | some (name, root) =>
    [(do
      let at_ ← Position.ofOffset src root.start
      let text ← root.text src
      return ⟨text, Node.memberKinds.contains name.kind, at_.line, at_.column, binds path text⟩ :
        Except Utf8.Fault TagReference).mapError (.refused ∘ .undecodable)]

mutual

/-- The references of a node and of all below it up to the next component methods, in order of the text. -/
def references (src : Bytes) (stem : String) (binds : List Nat → String → Bool) (path : List Nat) :
    Node → List (Except Failure TagReference)
  | .mk l cs => tagReferences src binds path (.mk l cs) ++ referencesIn src stem binds l.kind path 0 cs

/-- Those of the children of a node, from the one of number `i` on. -/
def referencesIn (src : Bytes) (stem : String) (binds : List Nat → String → Bool) (parent : String) (path : List Nat)
    (i : Nat) : List Node → List (Except Failure TagReference)
  | [] => []
  | n :: r =>
    (match methodName? src stem (some parent) n with
      | .error f => [.error (.refused (.undecodable f))]
      | .ok (some _) => []
      | .ok none => references src stem binds (path ++ [i]) n)
    ++ referencesIn src stem binds parent path (i + 1) r

end

end Component

end TagAlias
