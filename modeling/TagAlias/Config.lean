import TagAlias.Alias.Transform
import TagAlias.Data.Number
/-!
# Configuration

A configuration comes from a table of settings.  Every setting has a default, and one of the wrong kind is a fault that
is told; the first in the order stem, paths, extensions, policy, output, jobs counts.
-/
namespace TagAlias

structure Config where
  /-- What the names of component methods begin with. -/
  stem : String
  /-- Files and directories to look for sources in; everything if there are none. -/
  scanPaths : List String
  /-- Dialects by suffix, before the built-in ones. -/
  extensions : List (String × Dialect)
  policy : MemberTagPolicy
  /-- Where results go; without it they replace the sources. -/
  outDir : Option String
  jobs : Nat
  deriving DecidableEq, Repr

/-- What is wrong with a table of settings. -/
inductive ConfigFault where
  /-- It is no table at all. -/
  | noTable
  | stem (given : Value)
  | scanPaths
  | extensions
  | dialect (given : Value) (suffix : String)
  | policy (given : Value)
  | jobs (given : Value)
  /-- A setting that is taken as text holds an integer that cannot be shown. -/
  | unshown

namespace ConfigFault

def message : ConfigFault → String
  | noTable => "The configuration is no table"
  | stem v => "'prefix' must be a valid identifier, got " ++ v.quoted
  | scanPaths => "'scan_paths' must be a list of paths"
  | extensions => "'extensions' must be a table of suffix = dialect"
  | dialect v suffix => "Unknown dialect '" ++ v.display ++ "' for '" ++ suffix ++ "'"
  | policy v => "'member_tags' must be 'alias' or 'skip', got " ++ v.quoted
  | jobs v => "'jobs' must be a positive integer, got " ++ v.quoted
  | unshown => "A setting holds a number of too many digits"

/-- The value that is shown with a fault. -/
def given? : ConfigFault → Option Value
  | stem v => some v
  | dialect v _ => some v
  | policy v => some v
  | jobs v => some v
  | _ => none

/-- A fault is told, unless the value at fault cannot be shown. -/
def failure (f : ConfigFault) : Failure :=
  match f with
  | noTable => .refused .noSuchPart
  | unshown => .refused .malformedNumber
  | f => if f.given?.all Value.isShown then .config f.message else .refused .malformedNumber

end ConfigFault

namespace Config

def standard : Config := ⟨Transformer.defaultStem, [], [], .aliased, none, 1⟩

def readStem : Option Value → Except ConfigFault String
  | none => .ok standard.stem
  | some (.text s) => if Text.isIdentifier s then .ok s else .error (.stem (.text s))
  | some v => .error (.stem v)

def readScanPaths : Option Value → Except ConfigFault (List String)
  | none => .ok standard.scanPaths
  | some (.list vs) => if vs.all Value.isShown then .ok (vs.map Value.display) else .error .unshown
  | some _ => .error .scanPaths

/-- The suffix that a key stands for: in lower case, with a dot in front. -/
def suffixOf (key : String) : String := Text.lower (if key.toList.head? == some '.' then key else "." ++ key)

def setDialect (known : List (String × Dialect)) (suffix : String) (d : Dialect) : List (String × Dialect) :=
  if known.any (·.1 == suffix) then known.map (fun e => if e.1 == suffix then (suffix, d) else e)
  else known ++ [(suffix, d)]

def readExtension (known : List (String × Dialect)) (e : String × Value) : Except ConfigFault (List (String × Dialect)) :=
  match Dialect.ofText? e.2.display with
  | some d => .ok (setDialect known (suffixOf e.1) d)
  | none => .error (.dialect e.2 e.1)

def readExtensions : Option Value → Except ConfigFault (List (String × Dialect))
  | none => .ok standard.extensions
  | some (.table es) => es.foldlM readExtension []
  | some _ => .error .extensions

def readPolicy : Option Value → Except ConfigFault MemberTagPolicy
  | none => .ok standard.policy
  | some (.text s) =>
    match MemberTagPolicy.ofName? s with
    | some p => .ok p
    | none => .error (.policy (.text s))
  | some v => .error (.policy v)

def readOutDir : Option Value → Except ConfigFault (Option String)
  | none => .ok standard.outDir
  | some .null => .ok none
  | some v => if v.isShown then .ok (some v.display) else .error .unshown

def readJobs : Option Value → Except ConfigFault Nat
  | none => .ok standard.jobs
  | some (.integer n) => if 1 ≤ n then .ok n.toNat else .error (.jobs (.integer n))
  | some v => .error (.jobs v)

def ofValue (v : Value) : Except ConfigFault Config :=
  match v with
  | .table _ => do
    let stem ← readStem (v.get? "prefix")
    let scanPaths ← readScanPaths (v.get? "scan_paths")
    let extensions ← readExtensions (v.get? "extensions")
    let policy ← readPolicy (v.get? "member_tags")
    let outDir ← readOutDir (v.get? "out_dir")
    let jobs ← readJobs (v.get? "jobs")
    return ⟨stem, scanPaths, extensions, policy, outDir, jobs⟩
  | _ => .error .noTable

def overrides (c : Config) : Dialect.Overrides := c.extensions.map (fun e => (e.1, .text e.2.name))

def transformer (c : Config) : Transformer := ⟨⟨c.stem, c.policy⟩, c.overrides⟩

end Config

end TagAlias
