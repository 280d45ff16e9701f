import TagAlias.Path
import TagAlias.Text.Quoted
import TagAlias.Text.Utf8
/-!
# Files, directories and links

The state of a file system is what stands under each name, given by the names on the way from the root.  The root itself
is a directory.  Every entry but the root stands in a directory; what a link points at is found by following it.
-/
namespace TagAlias

inductive Entry where
  | file (content : Bytes)
  | directory
  /-- A link, with its target as it was written. -/
  | link (target : Path)
  deriving DecidableEq, Repr

structure Files where
  entries : List (List String × Entry)
  deriving Repr

/-- Why the file system refuses. -/
inductive FileFault where
  | missing
  | alreadyThere
  | notADirectory
  | isADirectory
  | tooManyLinks
  deriving DecidableEq, Repr

namespace FileFault

def number : FileFault → Nat
  | missing => 2
  | alreadyThere => 17
  | notADirectory => 20
  | isADirectory => 21
  | tooManyLinks => 40

def description : FileFault → String
  | missing => "No such file or directory"
  | alreadyThere => "File exists"
  | notADirectory => "Not a directory"
  | isADirectory => "Is a directory"
  | tooManyLinks => "Too many levels of symbolic links"

def message (f : FileFault) (p : Path) : String :=
  "[Errno " ++ toString f.number ++ "] " ++ f.description ++ ": " ++ Text.quoted p.display

end FileFault

namespace Files

def empty : Files := ⟨[]⟩

/-! ## Entries, without following links -/

def entry? (fs : Files) (names : List String) : Option Entry :=
  if names.isEmpty then some .directory else fs.entries.lookup names

/-- Sets what stands under a name. -/
def put (fs : Files) (names : List String) (e : Entry) : Files :=
  if fs.entries.any (·.1 == names) then ⟨fs.entries.map (fun x => if x.1 == names then (names, e) else x)⟩
  else ⟨fs.entries ++ [(names, e)]⟩

def remove (fs : Files) (names : List String) : Files := ⟨fs.entries.filter (·.1 != names)⟩

def namesIn (fs : Files) (dir : List String) : List String :=
  fs.entries.filterMap (fun x => if x.1.dropLast == dir && !x.1.isEmpty then x.1.getLast? else none)

/-- The regular files and what they hold. -/
def regular (fs : Files) : List (Path × Bytes) :=
  fs.entries.filterMap (fun x =>
    match x.2 with
    | .file content => some (Path.fromRoot x.1, content)
    | _ => none)

/-! ## Following links -/

/-- How many links one way may lead through. -/
def linkLimit : Nat := 40

/-- The way along `rest` from a directory; where it meets a link, `follow` goes on from the link's directory. -/
def stepAlong (fs : Files) (follow : List String → List String → Except FileFault (List String)) (dir : List String) :
    List String → Except FileFault (List String)
  | [] => .ok dir
  | name :: rest =>
    if name == ".." then stepAlong fs follow dir.dropLast rest
    else
      match fs.entry? (dir ++ [name]) with
      | some (.link target) => follow (if target.isAbsolute then [] else dir) (target.names ++ rest)
      | _ => stepAlong fs follow (dir ++ [name]) rest

/-- The way with at most so many links. -/
def resolveFrom (fs : Files) : Nat → List String → List String → Except FileFault (List String)
  | 0 => fun _ _ => .error .tooManyLinks
  | n + 1 => stepAlong fs (resolveFrom fs n)

/-- The path without links and double dots.  Names that are not there are kept, and two dots take away the name before
them whether it is there or not. -/
def resolve (fs : Files) (p : Path) : Except FileFault Path :=
  (resolveFrom fs (linkLimit + 1) [] p.names).map Path.fromRoot

/-! ## Finding what is there -/

/-- The place to which a way leads, where every name but the last has to stand for a directory. -/
def locateAlong (fs : Files) (follow : List String → List String → Except FileFault (List String)) (dir : List String) :
    List String → Except FileFault (List String)
  | [] => .ok dir
  | name :: rest =>
    match fs.entry? dir with
    | some .directory =>
      if name == ".." then locateAlong fs follow dir.dropLast rest
      else
        match fs.entry? (dir ++ [name]) with
        | some (.link target) => follow (if target.isAbsolute then [] else dir) (target.names ++ rest)
        | _ => locateAlong fs follow (dir ++ [name]) rest
    | some _ => .error .notADirectory
    | none => .error .missing

def locateFrom (fs : Files) : Nat → List String → List String → Except FileFault (List String)
  | 0 => fun _ _ => .error .tooManyLinks
  | n + 1 => locateAlong fs (locateFrom fs n)

/-- The place of a path, links followed.  Nothing need be there, but the directory it would stand in is. -/
def locate (fs : Files) (p : Path) : Except FileFault (List String) := locateFrom fs (linkLimit + 1) [] p.names

def find (fs : Files) (p : Path) : Except FileFault Entry :=
  match fs.locate p with
  | .error e => .error e
  | .ok names =>
    match fs.entry? names with
    | some e => .ok e
    | none => .error .missing

def isFile (fs : Files) (p : Path) : Bool :=
  match fs.find p with
  | .ok (.file _) => true
  | _ => false

def isDirectory (fs : Files) (p : Path) : Bool :=
  match fs.find p with
  | .ok .directory => true
  | _ => false

def exists_ (fs : Files) (p : Path) : Bool := (fs.find p).toOption.isSome

def read (fs : Files) (p : Path) : Except FileFault Bytes :=
  match fs.find p with
  | .ok (.file content) => .ok content
  | .ok _ => .error .isADirectory
  | .error e => .error e

/-- The names in the directory at a path, in order. -/
def list (fs : Files) (p : Path) : List String :=
  match fs.locate p with
  | .ok dir => (fs.namesIn dir).mergeSort (fun a b => !(b < a))
  | .error _ => []

/-! ## Changing -/

def write (fs : Files) (p : Path) (content : Bytes) : Except FileFault Files :=
  match fs.locate p with
  | .error e => .error e
  | .ok names =>
    match fs.entry? names with
    | some .directory => .error .isADirectory
    | some _ => .ok (fs.put names (.file content))
    | none => if fs.entry? names.dropLast == some .directory then .ok (fs.put names (.file content)) else .error .missing

def makeDirectory (fs : Files) (p : Path) : Except FileFault Files :=
  match fs.locate p.parent with
  | .error e => .error e
  | .ok dir =>
    match fs.entry? dir with
    | some .directory =>
      if p.names.isEmpty || p.name == ".." then .error .alreadyThere
      else if (fs.entry? (dir ++ [p.name])).isSome then .error .alreadyThere
      else .ok (fs.put (dir ++ [p.name]) .directory)
    | some _ => .error .notADirectory
    | none => .error .missing

/-- What a change has made of the files, and the fault that ended it, with its path. -/
abbrev Change := Files × Option (FileFault × Path)

/-- Makes a directory; one that is there already will do. -/
def ensureDirectory (fs : Files) (p : Path) : Change :=
  match fs.makeDirectory p with
  | .ok fs => (fs, none)
  -- A missing way is for the caller to make; after any other fault a directory that is there will do.
  | .error e => (fs, if fs.isDirectory p && e != .missing then none else some (e, p))

/-- Makes a directory and those above it that are missing, with the names from the last to the first. -/
def makeDirectoriesUp (fs : Files) (origin : Origin) : List String → Change
  | [] => (fs, none)
  | name :: above =>
    let p : Path := ⟨origin, (name :: above).reverse⟩
    match fs.ensureDirectory p with
    | (_, some (.missing, _)) =>
      match makeDirectoriesUp fs origin above with
      | (fs, some e) => (fs, some e)
      | (fs, none) => fs.ensureDirectory p
    | done => done

def makeDirectories (fs : Files) (p : Path) : Change := makeDirectoriesUp fs p.origin p.names.reverse

/-- Writes a file, in a directory that is made if it is missing. -/
def writeInto (fs : Files) (p : Path) (content : Bytes) : Change :=
  match fs.makeDirectories p.parent with
  | (fs, some e) => (fs, some e)
  | (fs, none) =>
    match fs.write p content with
    | .ok fs => (fs, none)
    | .error e => (fs, some (e, p))

end Files

end TagAlias
