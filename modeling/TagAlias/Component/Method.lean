import TagAlias.Component.Basic
import TagAlias.Failure
import TagAlias.Syntax.Node
import TagAlias.Text.Position
/-!
# Component methods of a tree

A component method is a method of a class body whose plain name begins with a given stem.  Its declarations go in front
of its first statement that is no directive, on a line of their own if that statement has one; after directives alone
they go behind the last, and into an empty body right behind its opening brace.
-/
namespace TagAlias

/-- A node with the kind of its parent and the way to it from the root. -/
structure Place where
  parent : Option String
  path : List Nat
  node : Node

namespace Node

mutual

/-- The places of a node and of all below it, parents first. -/
def places (parent : Option String) (path : List Nat) : Node → List Place
  | mk l cs => ⟨parent, path, mk l cs⟩ :: placesAll l.kind path 0 cs

def placesAll (parent : String) (path : List Nat) (i : Nat) : List Node → List Place
  | [] => []
  | n :: r => places (some parent) (path ++ [i]) n ++ placesAll parent path (i + 1) r

end

end Node

namespace Component

def methodKinds : List String := ["method_definition", "method_signature", "abstract_method_signature"]

/-- The kinds of plain names; a computed, quoted or private name is no component's. -/
def plainNameKinds : List String := ["property_identifier", "identifier"]

/-- The name of the component method that a node is, if it is one. -/
def methodName? (src : Bytes) (stem : String) (parent : Option String) (n : Node) : Except Utf8.Fault (Option String) :=
  if methodKinds.contains n.kind && parent == some "class_body" then
    match n.child? "name" with
    | some m =>
      if plainNameKinds.contains m.kind then
        (m.text src).map (fun s => if stem.toList.isPrefixOf s.toList then some s else none)
      else .ok none
    | none => .ok none
  else .ok none

/-! ## Where declarations go -/

/-- A statement that is a string alone. -/
def isDirective (n : Node) : Bool :=
  n.kind == "expression_statement" && n.namedChildren.head?.any (·.kind == "string")

def statements (body : Node) : List Node := body.namedChildren.filter (·.kind != "comment")

def semicolon : UInt8 := 0x3b

/-- The offset at which declarations go into a body, and what has to stand before them. -/
def bodyStart (src : Bytes) (body : Node) : Except Failure (Nat × String) :=
  match (statements body).dropWhile isDirective with
  | first :: _ => .ok (first.start, "")
  | [] =>
    match (statements body).getLast? with
    -- Directives alone: the last of them may have been written without its semicolon.
    | some last => .ok (last.stop, if src.slice (last.stop - 1) last.stop == [semicolon] then " " else "; ")
    | none =>
      match body.children with
      | brace :: _ => .ok (brace.stop, "")
      | [] => .error (.refused .emptyBody)

/-- What follows each declaration at an offset.  Where nothing but blanks stands before the offset on its line, that is
a line end like the one before the line, and the same blanks. -/
def separatorAt (src : Bytes) (offset : Nat) : String :=
  let start := Text.lineStart src offset
  let indent := src.slice start offset
  if start == 0 || !indent.all Text.isBlankByte then " "
  else
    let lineEnd := if src.slice (start - 2) start == [0x0d, 0x0a] then "\r\n" else "\n"
    lineEnd ++ String.ofList (indent.map (fun b => Char.ofNat b.toNat))

/-! ## Methods -/

def method (src : Bytes) (name : String) (n : Node) : Except Failure ComponentMethod := do
  let at_ ← (Position.ofOffset src n.start).mapError (.refused ∘ .undecodable)
  match n.child? "body" with
  | none => return ⟨name, none, false, "", " ", at_.line, at_.column⟩
  | some body =>
    let (offset, lead) ← bodyStart src body
    return ⟨name, some offset, true, lead, separatorAt src offset, at_.line, at_.column⟩

end Component

end TagAlias
