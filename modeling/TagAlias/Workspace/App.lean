import TagAlias.Workspace.Run
/-!
# Projects at work

A workspace is a project root with its configuration, and what its sources are read with.  It finds its sources, without those it has written itself, and
runs over them or over files that are named.
-/
namespace TagAlias

structure Workspace where
  parse : Parse
  root : Path
  config : Config

namespace Workspace

variable {α : Type} [Tellable α]

/-- The workspace of a root, with the configuration of its project file if none is given.  A configuration that is at
fault is told. -/
def openAt (parse : Parse) (fs : Files) (b : Bus α) (root : Path) (config : Option Config) :
    Bus α × Except Failure Workspace :=
  match Project.resolve fs root with
  | .error e => (b, .error (.refused e))
  | .ok root =>
    match config with
    | some c => (b, .ok ⟨parse, root, c⟩)
    | none =>
      match Project.loadConfig fs root with
      | .ok c => (b, .ok ⟨parse, root, c⟩)
      | .error f =>
        if f.isConfig then
          match b.send fs (.of .error "error.config" [("error", Tellable.fault f.display)]) with
          | (b, .ok ()) => (b, .error f)
          -- A message that is refused hides the failure that it should tell.
          | (b, .error e) => (b, .error (.refused e))
        else (b, .error f)

def discovery (w : Workspace) : Discovery := .of w.root (w.config.extensions.map (·.1))

def outDir (w : Workspace) (fs : Files) : Except Refusal (Option Path) :=
  match w.config.outDir with
  | none => .ok none
  | some s => if s.isEmpty then .ok none else (Project.resolve fs (w.root ++ Path.ofString s)).map some

/-- The sources of the workspace.  What lies in the directory for results is none. -/
def sources (w : Workspace) (fs : Files) (git : Listing) : Except Refusal (List Path) := do
  let files ← w.discovery.discover fs git w.config.scanPaths
  match ← w.outDir fs with
  | none => return files
  | some out => return files.filter (fun p => !out.isAbove p)

/-- Runs over the named files, or over all sources. -/
def run (w : Workspace) (fs : Files) (b : Bus α) (git : Listing) (files : Option (List Path)) (check : Bool) :
    Files × Bus α × Except Refusal Report :=
  let all : Except Refusal (Option Path × List Path) := do
    let out ← w.outDir fs
    match files with
    | some ps => return (out, ps.map (w.root ++ ·))
    | none => return (out, ← w.sources fs git)
  match all with
  | .error e => (fs, b, .error e)
  | .ok (out, ps) => RunPlan.run ⟨w.parse, w.root, w.config.transformer, out, check⟩ fs b ps

end Workspace

end TagAlias
