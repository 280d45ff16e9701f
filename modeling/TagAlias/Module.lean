import TagAlias.Component.Survey
import TagAlias.Syntax.Fault
/-!
# Modules

A module is a source text with its tree in a dialect.  The tree comes from a parser, which is no part of this library;
`TagAlias.Grammar` has one of its own.  There is a module only if nothing in the tree is at fault.
-/
namespace TagAlias

/-- The tree of a text in a dialect, or nothing where it is not told what in the text is at fault. -/
abbrev Parse := Dialect → List Char → Option Node

/-- The tree that is given, whatever the text. -/
def Parse.given (tree : Node) : Parse := fun _ _ => some tree

structure Module where
  file : String
  dialect : Dialect
  src : Bytes
  tree : Node

namespace Module

/-- The module of a text with a tree. -/
def ofTree (file : String) (d : Dialect) (text : String) (tree : Node) : Except Failure Module :=
  let src := Bytes.ofString text
  if tree.hasFault then .error (SyntaxFault.failure src file d (tree.firstFault?.getD tree))
  else .ok ⟨file, d, src, tree⟩

def read (parse : Parse) (file : String) (d : Dialect) (text : String) : Except Failure Module :=
  match parse d text.toList with
  | some tree => ofTree file d text tree
  | none => .error (SyntaxFault.unplaced file)

def survey (m : Module) (stem : String) (asks : TagReference → Bool) : Survey :=
  Survey.ofTree m.src stem asks m.tree

end Module

end TagAlias
