import TagAlias.Data.Value
import TagAlias.Message.Argument
/-!
# Messages

A message has a level, an address under which its text is kept, and parameters for that text.  Addresses are names with
dots between, built up from the root a name at a time.
-/
namespace TagAlias

inductive Level where
  | debug
  | info
  | success
  | warning
  | error
  deriving DecidableEq, Repr

namespace Level

def all : List Level := [debug, info, success, warning, error]

def name : Level → String
  | debug => "debug"
  | info => "info"
  | success => "success"
  | warning => "warning"
  | error => "error"

def ofName? (s : String) : Option Level := all.find? (·.name == s)

/-- The level of a log to which messages of a named level go.  Success and unknown levels are plain information. -/
def logName (s : String) : String :=
  match ofName? s with
  | some debug => "DEBUG"
  | some warning => "WARNING"
  | some error => "ERROR"
  | _ => "INFO"

end Level

structure Pointer where
  path : String
  deriving DecidableEq, Repr

namespace Pointer

def root : Pointer := ⟨""⟩

/-- The address one name further on.  Names that begin with two underscores are reserved. -/
def child (p : Pointer) (name : String) : Except Refusal Pointer :=
  if "__".toList.isPrefixOf name.toList then .error .noSuchPart
  else .ok ⟨if p.path.isEmpty then name else p.path ++ "." ++ name⟩

def ofNames (names : List String) : Except Refusal Pointer := names.foldlM child root

def quoted (p : Pointer) : String := if p.path.isEmpty then "<L: (root)>" else "<L: '" ++ p.path ++ "'>"

/-- Whether a value is the address as text. -/
def isNamedBy (p : Pointer) (v : Value) : Bool := v.display == p.path

end Pointer

structure Message (α : Type) where
  level : Level
  id : Str
  params : Template.Params α
  /-- Whether the place that it would tell is not known. -/
  unplaced : Bool

namespace Message

def of {α : Type} (level : Level) (id : Str) (params : Template.Params α) : Message α := ⟨level, id, params, false⟩

end Message

end TagAlias
