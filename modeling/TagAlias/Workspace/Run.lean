import TagAlias.Message.Bus
import TagAlias.Workspace.Discovery
/-!
# Transforming the files of a workspace

A run reads and transforms every file first.  Then it goes through the outcomes in order, reports each and writes what
has changed: over the source, or below the output directory.  It ends at the first thing that it cannot do; what was done
before stays done.
-/
namespace TagAlias

/-- Which files are transformed, how, and where results go. -/
structure RunPlan where
  parse : Parse
  root : Path
  transformer : Transformer
  outDir : Option Path
  /-- Whether the run only looks at what would change. -/
  check : Bool

inductive Outcome where
  | unread (message : String)
  | failed (failure : Failure)
  | done (result : Transformed)

structure Report where
  modified : List Path
  unchanged : List Path
  /-- The files that failed, with the text of the last failure of each. -/
  failed : List (Path × String)

inductive Action (α : Type) where
  | send (m : Message α)
  | write (p : Path) (content : Bytes)

namespace Transformed

/-- The messages for a result's diagnostics. -/
def messages {α : Type} [Tellable α] (t : Transformed) (stem : String) : List (Message α) :=
  t.diagnostics.filterMap (fun d =>
    if d.code == Alias.memberRootAliased then
      some (.of .warning "transform.member_root"
        [("path", Tellable.text (fileLabel t.file)), ("line", Tellable.integer d.line),
          ("column", Tellable.integer d.column), ("name", Tellable.text d.name), ("method", Tellable.text d.method),
          ("target", Tellable.text (stem ++ d.name))])
    else none)

/-- The aliases in a line: each method with its names in brackets. -/
def summary (t : Transformed) : String :=
  ", ".intercalate (t.plan.aliases.map (fun a => a.1 ++ "(" ++ ", ".intercalate a.2 ++ ")"))

end Transformed

namespace RunPlan

/-- The path as it is told: from the root if it lies below. -/
def relative (r : RunPlan) (p : Path) : Path := (p.relativeTo? r.root).getD p

def destination (r : RunPlan) (p : Path) : Path :=
  match r.outDir with
  | none => p
  | some out => out ++ r.relative p

def outcome (r : RunPlan) (fs : Files) (p : Path) : Except Refusal Outcome :=
  match fs.read p with
  | .error e => .ok (.unread (e.message p))
  | .ok content =>
    match Utf8.decode content with
    | .error f => .ok (.unread f.message)
    | .ok cs =>
      match r.transformer.transform r.parse (String.ofList cs) (r.relative p).display none with
      | .ok t => .ok (.done t)
      -- Only failures that are reported become outcomes; anything else ends the run before it has told of any file.
      | .error (.refused c) => .error c
      | .error f => .ok (.failed f)

/-! ## What is reported and written -/

variable {α : Type} [Tellable α]

def failureMessage (path : Path) (f : Failure) : Message α :=
  let (line, column, message) := match f.remark? with
    | some m => (m.line, m.column, m.message)
    | none => (0, 0, f.display)
  let unplaced := f.remark?.any (·.line == 0)
  let place (n : Int) : α := if unplaced then Tellable.nothing else Tellable.integer n
  ⟨.error, "transform.file.error", [("path", Tellable.path path), ("line", place line), ("column", place column),
    ("message", Tellable.text message)], unplaced⟩

/-- What is done about a file. -/
def actions (r : RunPlan) (p : Path) (o : Outcome) : List (Action α) :=
  let path := r.relative p
  let told : Str × α := ("path", Tellable.path path)
  match o with
  | .unread e => [.send (.of .error "transform.file.read_error" [told, ("error", Tellable.text e)])]
  | .failed f => [.send (failureMessage path f)]
  | .done t =>
    let put := Action.write (r.destination p) (Bytes.ofString t.code)
    (t.messages r.transformer.rule.stem).map Action.send ++
      if !t.changed then
        .send (.of .debug "transform.file.unchanged" [told])
          :: if r.outDir.isSome && !r.check then [put] else []
      else
        let params := [told, ("names", Tellable.text t.summary)]
        if r.check then [.send (.of .warning "transform.file.would_change" params)]
        else [put, .send (.of .success "transform.file.success" params)]

/-- The report after all outcomes. -/
def report : List (Path × Outcome) → Report
  | os =>
    ⟨os.filterMap (fun (p, o) => match o with
        | .done t => if t.changed then some p else none
        | _ => none),
      os.filterMap (fun (p, o) => match o with
        | .done t => if t.changed then none else some p
        | _ => none),
      os.foldl (fun known (p, o) => match o with
        | .unread e => setText known p e
        | .failed f => setText known p f.display
        | .done _ => known) []⟩
where
  setText (known : List (Path × String)) (p : Path) (s : String) : List (Path × String) :=
    if known.any (·.1 == p) then known.map (fun e => if e.1 == p then (p, s) else e) else known ++ [(p, s)]

def closing (r : RunPlan) (rep : Report) : Message α :=
  let counted (level : Level) (id : Str) (n : Nat) : Message α := .of level id [("count", Tellable.integer n)]
  if !rep.failed.isEmpty then counted .error "transform.run.failed" rep.failed.length
  else if !rep.modified.isEmpty then
    if r.check then counted .warning "transform.run.check_failed" rep.modified.length
    else counted .success "transform.run.complete" rep.modified.length
  else counted .success "transform.run.clean" rep.unchanged.length

/-! ## Carrying it out -/

def perform (fs : Files) (b : Bus α) : Action α → Files × Bus α × Except Refusal Unit
  | .send m =>
    match b.send fs m with
    | (b, done) => (fs, b, done)
  | .write p content =>
    match fs.writeInto p content with
    | (fs, none) => (fs, b, .ok ())
    | (fs, some (e, q)) => (fs, b, .error (.file e q))

/-- Carries out steps up to the first that fails. -/
def performAll (fs : Files) (b : Bus α) : List (Action α) → Files × Bus α × Except Refusal Unit
  | [] => (fs, b, .ok ())
  | a :: r =>
    match perform fs b a with
    | (fs, b, .ok ()) => performAll fs b r
    | (fs, b, .error e) => (fs, b, .error e)

def run (r : RunPlan) (fs : Files) (b : Bus α) (files : List Path) : Files × Bus α × Except Refusal Report :=
  -- Every file is transformed before the first message is sent or anything is written.
  match files.mapM (fun p => (r.outcome fs p).map (fun o => (p, o))) with
  | .error e => (fs, b, .error e)
  | .ok os =>
    let rep := report os
    match performAll fs b (os.flatMap (fun (p, o) => r.actions p o) ++ [.send (r.closing rep)]) with
    | (fs, b, .ok ()) => (fs, b, .ok rep)
    | (fs, b, .error e) => (fs, b, .error e)

end RunPlan

end TagAlias
