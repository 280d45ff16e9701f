import TagAlias.Files.Basic
/-!
# What can fail, and how it is told

A failure that is reported has a message for its reader, and is about a place in a source file where it has one.  Any
other request is refused for a cause that the caller could have known, or because bytes that should be text are not.
-/
namespace TagAlias

/-- A message about a place in a source file.  Line zero stands for no place. -/
structure Remark where
  message : String
  file : String
  line : Int
  column : Int
  deriving DecidableEq, Repr

/-- The name under which a file is told of; text without a file is the source. -/
def fileLabel (file : String) : String := if file.isEmpty then "<source>" else file

def Remark.display (r : Remark) : String :=
  let place := if r.line == 0 then "" else ":" ++ toString r.line ++ ":" ++ toString r.column
  fileLabel r.file ++ place ++ ": " ++ r.message

/-- Why a request is refused without a report. -/
inductive Refusal where
  | undecodable (fault : Utf8.Fault)
  /-- A body in which not even an opening brace stands. -/
  | emptyBody
  | unknownDialect (name : String)
  | bodiless (method : String)
  | outside (offset : Int) (last : Nat)
  /-- Something is asked for under a key that nothing has. -/
  | noSuchKey
  /-- A value is used as a table, or has no part of the name that is asked for. -/
  | noSuchPart
  | malformedTemplate
  /-- A number is outside of what its layout can show. -/
  | outOfRange
  /-- A text would be longer than any can be. -/
  | tooWide
  /-- A number has too many digits to be read. -/
  | malformedNumber
  /-- A value is used as what its kind cannot be. -/
  | wrongKind
  /-- A file cannot be written. -/
  | file (fault : FileFault) (path : Path)
  /-- A path leads through its own links again. -/
  | linkLoop
  /-- A value that is given from outside fails in a way of its own. -/
  | raised (kind : String)
  deriving DecidableEq, Repr

namespace Refusal

def message : Refusal → String
  | undecodable f => f.message
  | emptyBody => "The body is empty"
  | unknownDialect d => "'" ++ d ++ "' is not a valid Dialect"
  | bodiless m => "Method '" ++ m ++ "' has no body to patch"
  | outside o n => "Insertion offset " ++ toString o ++ " outside 0.." ++ toString n
  | noSuchKey => "Nothing has this key"
  | noSuchPart => "The value has no such part"
  | malformedTemplate => "The template is malformed"
  | outOfRange => "The number is out of range"
  | tooWide => "The text would be too long"
  | malformedNumber => "The number has too many digits"
  | wrongKind => "The value is of the wrong kind"
  | file f p => f.message p
  | linkLoop => "The links of the path lead back to it"
  | raised k => "The value fails with " ++ k

end Refusal

inductive Failure where
  | general (message : String)
  | config (message : String)
  /-- The configuration file cannot be read as what it should be. -/
  | configFile (path : Path) (fault : String)
  /-- The text is not in the language of its dialect. -/
  | syntaxError (remark : Remark)
  /-- A component method has no place for the aliases it needs. -/
  | unsupported (remark : Remark) (method : String)
  | refused (cause : Refusal)
  deriving DecidableEq, Repr

namespace Failure

def display : Failure → String
  | general m => m
  | config m => m
  | configFile p f => p.display ++ ": " ++ f
  | syntaxError r => r.display
  | unsupported r _ => r.display
  | refused c => c.message

/-- Whether it is reported to a reader instead of being refused. -/
def isReported : Failure → Bool
  | refused _ => false
  | _ => true

def isConfig : Failure → Bool
  | config _ => true
  | configFile _ _ => true
  | _ => false

/-- What is known of the place of a failure in a source text. -/
def remark? : Failure → Option Remark
  | syntaxError r => some r
  | unsupported r _ => some r
  | _ => none

def isAboutSource (f : Failure) : Bool := f.remark?.isSome

end Failure

end TagAlias
