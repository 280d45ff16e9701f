import TagAlias.Syntax.Node
/-!
# Names in binding positions

A declarator, a parameter or a destructuring pattern binds the names that stand in its binding positions, and no others:
not a property key, not a default value, not a type.  `bindingLeaves` lists the nodes of these names in order.
-/
namespace TagAlias.Node

/-- Where the bound names of a node stand. -/
inductive Descent where
  /-- The node is itself a bound name. -/
  | leaf
  /-- Below the first child that fills the field. -/
  | field (name : String)
  /-- Below each named child. -/
  | everyChild
  | nowhere
  deriving DecidableEq, Repr

def descent (kind : String) : Descent :=
  if kind == "identifier" || kind == "shorthand_property_identifier_pattern" then .leaf
  else if kind == "required_parameter" || kind == "optional_parameter" then .field "pattern"
  else if kind == "variable_declarator" then .field "name"
  else if kind == "assignment_pattern" || kind == "object_assignment_pattern" then .field "left"
  else if kind == "pair_pattern" then .field "value"
  else if kind == "object_pattern" || kind == "array_pattern" || kind == "rest_pattern" then .everyChild
  else .nowhere

mutual

/-- The nodes of the names that the node binds, in order. -/
def bindingLeaves : Node → List Node
  | mk l cs =>
    match descent l.kind with
    | .leaf => [mk l cs]
    | .field f => bindingLeavesAt f cs
    | .everyChild => bindingLeavesOfAll cs
    | .nowhere => []

/-- Those of the first node that fills the field. -/
def bindingLeavesAt (f : String) : List Node → List Node
  | [] => []
  | n :: r => if n.field == f then bindingLeaves n else bindingLeavesAt f r

/-- Those of all named nodes. -/
def bindingLeavesOfAll : List Node → List Node
  | [] => []
  | n :: r => if n.named then bindingLeaves n ++ bindingLeavesOfAll r else bindingLeavesOfAll r

end

def boundNames (src : Bytes) (n : Node) : Except Utf8.Fault (List String) := n.bindingLeaves.mapM (·.text src)

end TagAlias.Node
