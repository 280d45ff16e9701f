import TagAlias.Data.Toml.Writer
import TagAlias.Files.Basic
import TagAlias.Failure
import TagAlias.Text.Lines
/-!
# Building workspaces

A workspace is built from a name, settings and files.  Name and settings make its project file.  A source may be written
with the indentation of the text around it, which is then taken away.
-/
namespace TagAlias

namespace Text

def isIndent (c : Char) : Bool := c == ' ' || c == '\t'

def pieces (cs : List Char) : List (List Char) := cs.splitOnP (· == '\n')

/-- What two texts have in common at their beginning. -/
def commonStart : List Char → List Char → List Char
  | a :: r, b :: s => if a == b then a :: commonStart r s else []
  | _, _ => []

/-- The indentation that all lines have which hold more than blanks. -/
def margin (ls : List (List Char)) : List Char :=
  match (ls.filter (fun l => !l.all isIndent)).map (·.takeWhile isIndent) with
  | [] => []
  | first :: r => r.foldl commonStart first

/-- The text without the indentation that its lines share, and without blanks on lines of blanks alone. -/
def dedent (s : String) : String :=
  let ls := (pieces s.toList).map (fun l => if l.all isIndent then [] else l)
  let m := margin ls
  String.ofList (['\n'].intercalate (ls.map (fun l => if m.isPrefixOf l then l.drop m.length else l)))

end Text

structure Blueprint where
  name : Option String
  settings : Option Value
  /-- Files with their texts. -/
  files : List (String × String)

namespace Blueprint

def projectEntries (b : Blueprint) : List (String × Value) :=
  (b.name.map (fun n => ("project", Value.table [("name", .text n)]))).toList
    ++ (b.settings.map (fun s => ("tool", Value.table [("innerbind", s)]))).toList

/-- Writes the files below a root, the project file first. -/
def build (b : Blueprint) (fs : Files) (root : Path) : Except Refusal Files := do
  let project ←
    if b.projectEntries.isEmpty then pure []
    else
      match Toml.write? b.projectEntries with
      | some s => pure [("pyproject.toml", s)]
      | none => .error .wrongKind
  (project ++ b.files).foldlM (fun fs (name, text) =>
    match fs.writeInto (root ++ Path.ofString name) (Bytes.ofString text) with
    | (fs, none) => .ok fs
    | (_, some (e, p)) => .error (.file e p)) fs

end Blueprint

end TagAlias
