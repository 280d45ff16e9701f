import TagAlias.Message.Template
import TagAlias.Path
/-!
# What messages tell

The messages of a project tell of texts, numbers, paths and faults.  What becomes of these in a template is settled by the
objects that stand for them, and any objects do (`Tellable`).  `Argument` has such objects, with the parts that are data:
what else can be asked of a value by name counts there as not present.
-/
namespace TagAlias

/-- Objects for what messages tell. -/
class Tellable (α : Type) extends Template.Object α where
  nothing : α
  text : String → α
  integer : Int → α
  path : Path → α
  /-- What is wrong with a configuration. -/
  fault : String → α

inductive Argument where
  | null
  | bool (b : Bool)
  | integer (n : Int)
  | text (s : Str)
  | path (p : Path)
  | fault (message : String)
  | list (items : List Str)
  /-- A sequence that cannot change. -/
  | tuple (items : List Str)
  deriving DecidableEq, Repr

namespace Argument

/-- The argument in the notation in which messages show it. -/
def quoted : Argument → String
  | null => "None"
  | bool true => "True"
  | bool false => "False"
  | integer n => toString n
  | text s => Text.quotedPoints s
  | path p => "PosixPath(" ++ Text.quoted p.display ++ ")"
  | fault m => "ConfigError(" ++ Text.quoted m ++ ")"
  | list ss => Text.bracketed (ss.map Text.quotedPoints)
  -- A comma after a single item tells the sequence from a value in brackets.
  | tuple [s] => "(" ++ Text.quotedPoints s ++ ",)"
  | tuple ss => "(" ++ ", ".intercalate (ss.map Text.quotedPoints) ++ ")"

def display : Argument → Str
  | text s => s
  | path p => p.display
  | fault m => m
  | a => a.quoted

def isShown : Argument → Bool
  | integer n => Number.isShort n
  | _ => true

/-- A text of an argument, which there is if it can be shown. -/
def shown (a : Argument) (s : Str) : Except TemplateFault Str := if a.isShown then .ok s else .error Template.malformed

/-- The integer that an argument is.  A truth value is one. -/
def asInteger? : Argument → Option Int
  | integer n => some n
  | bool b => some (if b then 1 else 0)
  | _ => none

/-! ## Parts -/

/-- The parts of an integer: those of a complex number and those of a fraction. -/
def partOfInteger? (n : Int) : String → Option Argument
  | "real" | "numerator" => some (.integer n)
  | "imag" => some (.integer 0)
  | "denominator" => some (.integer 1)
  | _ => none

/-- The parts of a path.  There are no drives where paths begin with slashes. -/
def partOfPath? (p : Path) : String → Option Argument
  | "name" => some (.text p.name)
  | "stem" => some (.text (Path.stemOf p.name))
  | "suffix" => some (.text (Path.suffixOf p.name))
  | "suffixes" => some (.list ((Path.suffixesOf p.name).map Str.ofString))
  | "parent" => some (.path p.parent)
  | "parts" => some (.tuple (p.parts.map Str.ofString))
  | "drive" => some (.text "")
  | "root" | "anchor" => some (.text p.origin.display)
  | _ => none

def part? (a : Argument) (name : String) : Option Argument :=
  match a, name with
  | .path p, name => partOfPath? p name
  | .fault m, "args" => some (.tuple [m])
  | a, name => a.asInteger?.bind (partOfInteger? · name)

def orMissing (s : Option Str) : Except TemplateFault Argument := s.elim (.error .missing) (.ok ∘ text)

/-- Code points of a text and items of a sequence have numbers; nothing has keys. -/
def item : Argument → Template.Key → Except TemplateFault Argument
  | text s, .number n => orMissing (s[n]?.map ([·]))
  | list ss, .number n => orMissing ss[n]?
  | tuple ss, .number n => orMissing ss[n]?
  | _, _ => .error (.refused .wrongKind)

/-! ## Forms and layouts -/

/-- A code point in the notation that is ASCII alone. -/
def asciiOnly (c : Char) : List Char :=
  if c.toNat < 0x80 then [c]
  else if c.toNat < 0x100 then '\\' :: 'x' :: Text.hexDigits 2 c.toNat
  else if c.toNat < 0x10000 then '\\' :: 'u' :: Text.hexDigits 4 c.toNat
  else '\\' :: 'U' :: Text.hexDigits 8 c.toNat

def inForm (a : Argument) : Template.Form → Except TemplateFault Argument
  | .plain => (a.shown a.display).map text
  | .quoted => (a.shown a.quoted).map text
  | .ascii => (a.shown (String.ofList (a.quoted.toList.flatMap asciiOnly))).map text

def ofLayoutFault : LayoutFault → TemplateFault
  | .malformed => Template.malformed
  | .outOfRange => .refused .outOfRange

/-- Lays an argument out, if the text of the layout can be read and the field is no wider than a text can be. -/
def layWith (isNumber : Bool) (layout : Str) (lay : Layout → Except LayoutFault Str) : Except TemplateFault Str :=
  match Layout.read? isNumber layout with
  | none => .error Template.malformed
  | some l =>
    if Layout.lengthLimit < l.width.getD 0 then
      match lay { l with width := none } with
      | .ok _ => .error (.refused .tooWide)
      | .error e => .error (ofLayoutFault e)
    else (lay l).mapError ofLayoutFault

/-- An argument in the layout that a text describes. -/
def lay (a : Argument) (layout : Str) : Except TemplateFault Str :=
  if layout.isEmpty then a.shown a.display
  else
    match a with
    | .text s => layWith false layout (·.layText s)
    | _ =>
      match a.asInteger? with
      | some n => layWith true layout (·.layInteger n)
      -- No other argument takes a layout, not even one that would leave it as it is.
      | none => .error (.refused .wrongKind)

instance : Tellable Argument where
  named a name := ((Str.toString? name).bind a.part?).elim (.error (.refused .noSuchPart)) .ok
  item := item
  inForm := inForm
  lay := lay
  nothing := null
  text s := text s
  integer := integer
  path := path
  fault := fault

end Argument

end TagAlias
