import TagAlias.Data.Binary64
import TagAlias.Data.Moment
/-!
# Data values

What configuration files hold.  A value has two texts.  `quoted` shows texts in quotes; `display` is for a text what it says.
-/
namespace TagAlias

inductive Value where
  | null
  | bool (b : Bool)
  | integer (n : Int)
  | real (x : Binary64)
  | text (s : String)
  | moment (m : Moment)
  | list (items : List Value)
  /-- Keys are distinct, in order of their first appearance. -/
  | table (entries : List (String × Value))
  deriving Repr, Inhabited

namespace Value

mutual

/-- The value in the notation in which messages show it. -/
def quoted : Value → String
  | null => "None"
  | bool true => "True"
  | bool false => "False"
  | integer n => toString n
  | real x => x.display
  | text s => Text.quoted s
  | moment m => m.quoted
  | list vs => Text.bracketed (quotedAll vs)
  | table es => "\x7b" ++ ", ".intercalate (quotedEntries es) ++ "\x7d"

def quotedAll : List Value → List String
  | [] => []
  | v :: r => quoted v :: quotedAll r

def quotedEntries : List (String × Value) → List String
  | [] => []
  | (k, v) :: r => (Text.quoted k ++ ": " ++ quoted v) :: quotedEntries r

end

/-- The value as text. -/
def display : Value → String
  | text s => s
  | moment m => m.display
  | v => v.quoted

/-- Whether the value counts as there: neither null, false or zero nor empty. -/
def isPresent : Value → Bool
  | null => false
  | bool b => b
  | integer n => n != 0
  | real (.finite _ m _) => m != 0
  | real _ => true
  | text s => !s.isEmpty
  | moment _ => true
  | list vs => !vs.isEmpty
  | table es => !es.isEmpty

/-! ## Entries of a table -/

/-- Sets the value under a key: in its place if it is there, after all others if not. -/
def put {κ β : Type} [BEq κ] (es : List (κ × β)) (key : κ) (v : β) : List (κ × β) :=
  if es.any (·.1 == key) then es.map (fun e => if e.1 == key then (key, v) else e) else es ++ [(key, v)]

/-- The entries of a sequence of settings, of which the last under a key counts. -/
def settle {κ β : Type} [BEq κ] (es : List (κ × β)) : List (κ × β) := es.foldl (fun acc e => put acc e.1 e.2) []

def get? : Value → String → Option Value
  | table es, key => es.lookup key
  | _, _ => none

end Value

end TagAlias
