/-!
# Component methods and the tags in them

What is known of a method whose tags may need aliases, and of a tag in it, apart from the tree they were found in.
-/
namespace TagAlias

/-- A method of a class that renders a component. -/
structure ComponentMethod where
  name : String
  /-- Offset at which declarations go: before the first statement, or after the opening brace. -/
  bodyStart : Option Int
  hasBody : Bool
  /-- What has to stand before the declarations, to end a directive that nothing ends. -/
  lead : String
  /-- What follows each declaration. -/
  separator : String
  line : Int
  column : Int
  deriving DecidableEq, Repr

/-- The root of a tag's name where the tag stands. -/
structure TagReference where
  name : String
  /-- The root of a qualified name, such as the first part of `Ui.Button`. -/
  isMemberRoot : Bool
  line : Int
  column : Int
  /-- Whether the name has a declaration that holds there. -/
  bound : Bool
  deriving DecidableEq, Repr

/-- A component is named by a capital letter of ASCII; all other tags are those of the markup itself. -/
def isComponentName (name : String) : Bool :=
  match name.toList with
  | c :: _ => 'A' ≤ c && c ≤ 'Z'
  | [] => false

end TagAlias
