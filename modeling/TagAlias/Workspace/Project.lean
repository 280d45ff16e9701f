import TagAlias.Config
import TagAlias.Data.Toml.Reader
import TagAlias.Files.Basic
/-!
# Projects and their configuration

A project is found by going up from a directory.  Its root is the nearest directory with a project file or a repository;
its configuration is a table in the nearest project file.
-/
namespace TagAlias

namespace Path

/-- The path and those above it, from the last to the first; `up` are its names in reverse. -/
def upFrom (origin : Origin) : List String → List Path
  | [] => [⟨origin, []⟩]
  | name :: up => ⟨origin, (name :: up).reverse⟩ :: upFrom origin up

/-- The path and those above it, nearest first. -/
def upward (p : Path) : List Path := upFrom p.origin p.names.reverse

end Path

namespace Project

def fileName : String := "pyproject.toml"

def repositoryName : String := ".git"

/-- A path without links, or a refusal where they lead in a circle. -/
def resolve (fs : Files) (p : Path) : Except Refusal Path := (fs.resolve p).mapError (fun _ => .linkLoop)

def isRoot (fs : Files) (dir : Path) : Bool :=
  !dir.names.isEmpty && (fs.isFile (dir.child fileName) || fs.isDirectory (dir.child repositoryName))

/-- The root of the project around a directory; the directory itself if there is no project. -/
def root (fs : Files) (start : Path) : Except Refusal Path :=
  (resolve fs start).map (fun start => (start.upward.find? (isRoot fs)).getD start)

def file? (fs : Files) (start : Path) : Option Path := (start.upward.map (·.child fileName)).find? fs.isFile

/-- The entry of a table, which is an empty table where it is missing. -/
def tableIn (v : Value) (key : String) : Except Refusal Value :=
  match v with
  | .table es => .ok ((es.lookup key).getD (.table []))
  | _ => .error .noSuchPart

def configOf (path : Path) (text : List Char) : Except Failure Config :=
  match Toml.read text with
  -- A number of too many digits is no fault of the format, and so it is not told as one.
  | .error (.tooLong, _) => .error (.refused .malformedNumber)
  | .error (_, message) => .error (.configFile path message)
  | .ok v => do
    let tool ← (tableIn v "tool").mapError .refused
    let own ← (tableIn tool "innerbind").mapError .refused
    (Config.ofValue own).mapError ConfigFault.failure

def loadConfig (fs : Files) (start : Path) : Except Failure Config := do
  let start ← (resolve fs start).mapError .refused
  match file? fs start with
  | none => return .standard
  | some path =>
    let content ← (fs.read path).mapError (fun e => .refused (.file e path))
    let text ← (Utf8.decode content).mapError (.refused ∘ .undecodable)
    configOf path text

end Project

end TagAlias
