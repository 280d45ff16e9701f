import TagAlias.Text.Lowercase
/-!
# Paths

A path is a sequence of names and where it begins.  Empty names and single dots do not count; two dots do, because what
they stand for depends on links.  Paths are ordered name by name.
-/
namespace TagAlias

/-- Where a path begins.  Exactly two slashes are a root that is written differently from one or from three. -/
inductive Origin where
  | relative
  | root
  | doubleRoot
  deriving DecidableEq, Repr

def Origin.display : Origin → String
  | relative => ""
  | root => "/"
  | doubleRoot => "//"

structure Path where
  origin : Origin
  names : List String
  deriving DecidableEq, Repr

namespace Path

def fromRoot (names : List String) : Path := ⟨.root, names⟩

def isAbsolute (p : Path) : Bool := p.origin != .relative

def originOf (s : String) : Origin :=
  match s.toList with
  | '/' :: '/' :: '/' :: _ => .root
  | '/' :: '/' :: _ => .doubleRoot
  | '/' :: _ => .root
  | _ => .relative

/-- The pieces between slashes. -/
def pieces (s : String) : List String := (s.toList.splitOnP (· == '/')).map String.ofList

def ofString (s : String) : Path :=
  ⟨originOf s, (pieces s).filter (fun n => !n.isEmpty && n != ".")⟩

def display (p : Path) : String :=
  if !p.isAbsolute && p.names.isEmpty then "." else p.origin.display ++ "/".intercalate p.names

instance : ToString Path := ⟨display⟩

/-- The second path as seen from the first. -/
def append (p q : Path) : Path := if q.isAbsolute then q else ⟨p.origin, p.names ++ q.names⟩

instance : Append Path := ⟨append⟩

/-- A name below the path. -/
def child (p : Path) (name : String) : Path := ⟨p.origin, p.names ++ [name]⟩

def parent (p : Path) : Path := ⟨p.origin, p.names.dropLast⟩

/-- The names of the path, after its root if it has one. -/
def parts (p : Path) : List String := if p.isAbsolute then p.origin.display :: p.names else p.names

/-- The last name, empty if there is none. -/
def name (p : Path) : String := p.names.getLast?.getD ""

/-- What a name has from its last dot on.  A dot that stands first or last begins none. -/
def suffixOf (name : String) : String :=
  let cs := name.toList
  let tail := (cs.reverse.takeWhile (· != '.')).reverse
  if tail.isEmpty || cs.length ≤ tail.length + 1 then "" else String.ofList ('.' :: tail)

/-- A name without its suffix. -/
def stemOf (name : String) : String := String.ofList (name.toList.take (name.length - (suffixOf name).length))

/-- What a name has from each of its dots on up to the next.  Dots at its beginning begin none, and a name that ends in a
dot has none. -/
def suffixesOf (name : String) : List String :=
  if name.toList.getLast? == some '.' then []
  else (((name.toList.dropWhile (· == '.')).splitOnP (· == '.')).drop 1).map (fun cs => String.ofList ('.' :: cs))

/-- The suffix of the last name in lower case, by which sources are told from other files. -/
def suffix (p : Path) : String := Text.lower (suffixOf p.name)

/-- Whether the second path lies below the first. -/
def isAbove (p q : Path) : Bool := p.origin == q.origin && p.names.isPrefixOf q.names && p.names != q.names

/-- The path as seen from the directory `base`, if it lies there. -/
def relativeTo? (p base : Path) : Option Path :=
  if p.origin == base.origin && base.names.isPrefixOf p.names then some ⟨.relative, p.names.drop base.names.length⟩
  else none

def namesLe : List String → List String → Bool
  | [], _ => true
  | _ :: _, [] => false
  | a :: r, b :: s => if a == b then namesLe r s else a < b

/-- The order of paths: name by name, an absolute path by its root before its names. -/
def le (p q : Path) : Bool :=
  namesLe p.parts q.parts

/-- The paths in order, each once. -/
def sorted (ps : List Path) : List Path := (ps.mergeSort le).eraseReps

end Path

end TagAlias
