import TagAlias.Text.Utf8
/-!
# Concrete syntax trees

A node has a kind, a span of byte offsets in the source, the field it fills in its parent, and its children in order.
A tree may come from the parser of `TagAlias.Grammar` or be given; in a given tree any kind may stand anywhere and spans
need not nest, so nothing here takes the shape of a tree for granted.
-/
namespace TagAlias

/-- What is known of a node besides its children. -/
structure Label where
  /-- The grammar's name for the node; the text itself for a token such as an opening brace. -/
  kind : String
  /-- Offset of its first byte. -/
  start : Nat
  /-- Offset just after its last byte. -/
  stop : Nat
  /-- The field it fills in its parent, empty if none. -/
  field : String
  /-- A rule's node, as opposed to a bare token. -/
  named : Bool
  /-- Inserted by the parser to stand for a token that is not there. -/
  missing : Bool
  deriving DecidableEq, Repr, Inhabited

inductive Node where
  | mk (label : Label) (children : List Node)
  deriving Repr, Inhabited

namespace Node

def label : Node → Label
  | mk l _ => l

def children : Node → List Node
  | mk _ cs => cs

def kind (n : Node) : String := n.label.kind

def start (n : Node) : Nat := n.label.start

def stop (n : Node) : Nat := n.label.stop

def field (n : Node) : String := n.label.field

def named (n : Node) : Bool := n.label.named

def missing (n : Node) : Bool := n.label.missing

def namedChildren (n : Node) : List Node := n.children.filter (·.named)

def child? (n : Node) (field : String) : Option Node := n.children.find? (·.field == field)

/-- The node's text, where its span holds well-formed UTF-8. -/
def text (src : Bytes) (n : Node) : Except Utf8.Fault String := (src.slice n.start n.stop).toString?

/-- The same node, filling the field `f` of its parent. -/
def inField (f : String) : Node → Node
  | mk l cs => mk { l with field := f } cs

mutual

/-- The node and all below it, parents first. -/
def preorder : Node → List Node
  | mk l cs => mk l cs :: preorderAll cs

def preorderAll : List Node → List Node
  | [] => []
  | n :: r => preorder n ++ preorderAll r

end

end Node

end TagAlias
