import TagAlias.Dialect
import TagAlias.Syntax.Node
import TagAlias.Text.Position
/-!
# Faults in a syntax tree

A tree of a text that is not well-formed has nodes for what could not be read, or for tokens that are not there.  The
fault that is told is the first of them.  The search goes down only where some node below is at fault.
-/
namespace TagAlias

namespace Node

def isFault (n : Node) : Bool := n.kind == "ERROR" || n.missing

mutual

def hasFault : Node → Bool
  | mk l cs => isFault (mk l cs) || hasFaultIn cs

def hasFaultIn : List Node → Bool
  | [] => false
  | n :: r => hasFault n || hasFaultIn r

end

mutual

/-- The first node at fault, parents first. -/
def firstFault? : Node → Option Node
  | mk l cs =>
    if isFault (mk l cs) then some (mk l cs)
    else if hasFaultIn cs then firstFaultIn? cs
    else none

def firstFaultIn? : List Node → Option Node
  | [] => none
  | n :: r => (firstFault? n).or (firstFaultIn? r)

end

end Node

namespace SyntaxFault

/-- How much of a text that could not be read is told. -/
def excerptLength : Nat := 30

/-- The beginning of the first line of a text, blanks before it left out. -/
def excerpt (s : String) : String :=
  String.ofList (((Text.lines (Text.strip s.toList)).headD []).take excerptLength)

def message (src : Bytes) (d : Dialect) (n : Node) : Except Utf8.Fault String :=
  if n.missing then .ok ("Missing '" ++ n.kind ++ "' (" ++ d.name ++ ")")
  else (n.text src).map (fun s => "Unexpected token '" ++ excerpt s ++ "' (" ++ d.name ++ ")")

def remark (src : Bytes) (file : String) (d : Dialect) (n : Node) : Except Utf8.Fault Remark := do
  let at_ ← Position.ofOffset src n.start
  let told ← message src d n
  return ⟨told, file, at_.line, at_.column⟩

def failure (src : Bytes) (file : String) (d : Dialect) (n : Node) : Failure :=
  match remark src file d n with
  | .ok r => .syntaxError r
  | .error f => .refused (.undecodable f)

/-- The failure for a text of which no tree is known. -/
def unplaced (file : String) : Failure := .syntaxError ⟨"<syntax error>", file, 0, 0⟩

end SyntaxFault

end TagAlias
