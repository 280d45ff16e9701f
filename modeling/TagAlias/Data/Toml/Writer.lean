import TagAlias.Data.Value
/-!
# Writing TOML

A table is written as its plain entries, then its tables, each under a header of its own.  A list of tables whose items
are too long for a line is written item by item with headers.  What is null, a path or a fault cannot be written.
-/
namespace TagAlias.Toml

/-! ## Strings and keys -/

def compactEscapes : List (Char × Char) :=
  [('\x08', 'b'), ('\n', 'n'), ('\x0c', 'f'), ('\r', 'r'), ('"', '"'), ('\\', '\\')]

def hexDigits : Nat → Nat → List Char
  | 0, _ => []
  | w + 1, n => hexDigits w (n / 16) ++ [Nat.digitChar (n % 16)]

def escaped (c : Char) : List Char :=
  match compactEscapes.lookup c with
  | some e => ['\\', e]
  | none => if (c.toNat < 0x20 && c != '\t') || c == '\x7f' then '\\' :: 'u' :: hexDigits 4 c.toNat else [c]

def writeString (s : String) : String := String.ofList ('"' :: s.toList.flatMap escaped ++ ['"'])

def isBareKey (s : String) : Bool := !s.isEmpty && s.toList.all (fun c => c.isAlphanum || c == '-' || c == '_')

def writeKey (s : String) : String := if isBareKey s then s else writeString s

/-! ## Values on one line or in brackets -/

def indent (level : Nat) : String := String.ofList (List.replicate (4 * level) ' ')

mutual

def literal? (level : Nat) : Value → Option String
  | .null => none
  | .bool b => some (if b then "true" else "false")
  | .integer n => some (toString n)
  | .real x => some x.display
  | .text s => some (writeString s)
  | .moment m => some m.display
  | .list [] => some "[]"
  | .list (v :: r) =>
    (literals? (level + 1) (v :: r)).map (fun ls =>
      "[\n" ++ ",\n".intercalate (ls.map (indent (level + 1) ++ ·)) ++ ",\n" ++ indent level ++ "]")
  | .table [] => some "\x7b\x7d"
  | .table (e :: r) => (inlineEntries? (e :: r)).map (fun ls => "\x7b " ++ ", ".intercalate ls ++ " \x7d")

def literals? (level : Nat) : List Value → Option (List String)
  | [] => some []
  | v :: r =>
    match literal? level v, literals? level r with
    | some l, some ls => some (l :: ls)
    | _, _ => none

def inlineEntries? : List (String × Value) → Option (List String)
  | [] => some []
  | (k, v) :: r =>
    match literal? 0 v, inlineEntries? r with
    | some l, some ls => some ((writeKey k ++ " = " ++ l) :: ls)
    | _, _ => none

end

def lineLimit : Nat := 100

def isTable : Value → Bool
  | .table _ => true
  | _ => false

/-- Whether an item of a list can stand on one line. -/
def fitsLine (v : Value) : Option Bool :=
  (literal? 0 v).map (fun l =>
    let line := indent 1 ++ l ++ ","
    line.length ≤ lineLimit && !line.toList.contains '\n')

/-- Whether a value is a list that is written item by item. -/
def needsHeaders : Value → Option Bool
  | .list vs =>
    if vs.isEmpty || !vs.all isTable then some false
    else (vs.mapM fitsLine).map (fun fits => !fits.all id)
  | _ => some false

/-! ## Tables -/

/-- A part of a table that gets a header. -/
structure Part where
  name : String
  isItem : Bool
  entries : List (String × Value)

def plainLine? (e : String × Value) : Option (List String) :=
  match e.2 with
  | .table _ => some []
  | v =>
    match needsHeaders v with
    | some true => some []
    | some false => (literal? 0 v).map (fun l => [writeKey e.1 ++ " = " ++ l ++ "\n"])
    | none => none

def tableEntries : Value → List (String × Value)
  | .table es => es
  | _ => []

/-- The parts of an entry that get headers. -/
def parts (e : String × Value) : List Part :=
  match e.2 with
  | .table es => [⟨e.1, false, es⟩]
  | .list vs => if needsHeaders e.2 == some true then vs.map (fun v => ⟨e.1, true, tableEntries v⟩) else []
  | _ => []

/-- A table of the given name, for nestings up to a depth. -/
def writeTable : Nat → String → Bool → List (String × Value) → Option String
  | 0, _, _, _ => none
  | n + 1, name, isItem, es => do
    let lines := (← es.mapM plainLine?).flatten
    let ps := es.flatMap parts
    let header :=
      if isItem then ["[[" ++ name ++ "]]\n"]
      else if !name.isEmpty && (!lines.isEmpty || ps.isEmpty) then ["[" ++ name ++ "]\n"]
      else []
    let below ← ps.mapM (fun p =>
      writeTable n (if name.isEmpty then writeKey p.name else name ++ "." ++ writeKey p.name) p.isItem p.entries)
    let own := header ++ lines
    return String.join own ++ (if own.isEmpty || below.isEmpty then "" else "\n") ++ "\n".intercalate below

mutual

def depth : Value → Nat
  | .list vs => depthOfAll vs + 1
  | .table es => depthOfEntries es + 1
  | _ => 1

def depthOfAll : List Value → Nat
  | [] => 0
  | v :: r => max (depth v) (depthOfAll r)

def depthOfEntries : List (String × Value) → Nat
  | [] => 0
  | (_, v) :: r => max (depth v) (depthOfEntries r)

end

def write? (es : List (String × Value)) : Option String := writeTable (depthOfEntries es + 1) "" false es

end TagAlias.Toml
