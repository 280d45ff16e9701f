import TagAlias.Dialect
import TagAlias.Workspace.Project
/-!
# Finding sources

Candidates are what a repository lists, or else the files below the root that neither are hidden nor lie in a hidden
directory or one of installed packages.  Of these the ones with a known suffix count.  Scan paths name files, which count
by their suffix alone, and directories, which pick the candidates below them.
-/
namespace TagAlias

/-- What a repository tells of its files. -/
inductive Listing where
  | lines (text : String)
  /-- It cannot be asked. -/
  | unavailable
  deriving DecidableEq, Repr

structure Discovery where
  root : Path
  suffixes : List String

namespace Discovery

/-- The discovery for a root with the suffixes of a configuration besides the built-in ones. -/
def of (root : Path) (extra : List String) : Discovery :=
  ⟨root, (Dialect.suffixTable.map (·.1) ++ extra).map Text.lower⟩

def matches_ (d : Discovery) (p : Path) : Bool := d.suffixes.contains p.suffix

/-! ## Candidates -/

def isHidden (name : String) : Bool := name.toList.head? == some '.'

def isEntered (name : String) : Bool := !isHidden name && name != "node_modules"

/-- Whether an entry is found as a file: links to directories are not followed, other links are files. -/
def isFound (fs : Files) (names : List String) : Entry → Bool
  | .file _ => true
  | .directory => false
  | .link _ => !fs.isDirectory (.fromRoot names)

def walk (fs : Files) (base : Path) : List Path :=
  fs.entries.filterMap (fun (names, e) =>
    let below := names.drop base.names.length
    if base.names.isPrefixOf names && !below.isEmpty && below.dropLast.all isEntered
        && !(below.getLast?.any isHidden) && isFound fs names e then some (.fromRoot names)
    else none)

/-- The paths that a repository's lines name. -/
def listed (d : Discovery) (text : String) : List Path :=
  ((Text.lines text.toList).map Text.strip).filterMap (fun l =>
    if l.isEmpty then none else some (d.root ++ Path.ofString (String.ofList l)))

def found (d : Discovery) (fs : Files) (git : Listing) : List Path :=
  if fs.exists_ (d.root.child Project.repositoryName) then
    match git with
    | .lines text => d.listed text
    | .unavailable => walk fs d.root
  else walk fs d.root

/-- The candidates with a known suffix, without links. -/
def candidates (d : Discovery) (fs : Files) (git : Listing) : Except Refusal (List Path) :=
  ((d.found fs git).filter d.matches_).mapM (Project.resolve fs)

/-! ## Selection -/

/-- What a scan path picks. -/
def select (d : Discovery) (fs : Files) (candidates : List Path) (entry : String) : Except Refusal (List Path) :=
  (Project.resolve fs (d.root ++ Path.ofString entry)).map (fun target =>
    -- A file is picked by itself, be it a candidate or not.
    if fs.isFile target then (if d.matches_ target then [target] else [])
    else if fs.isDirectory target then candidates.filter target.isAbove
    else [])

/-- The sources that scan paths pick, in order; all candidates if there are none. -/
def discover (d : Discovery) (fs : Files) (git : Listing) (scanPaths : List String) : Except Refusal (List Path) := do
  let cs ← d.candidates fs git
  if scanPaths.isEmpty then return Path.sorted cs
  else return Path.sorted (← scanPaths.mapM (d.select fs cs)).flatten

end Discovery

end TagAlias
