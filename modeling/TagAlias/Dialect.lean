import TagAlias.Failure
import TagAlias.Data.Value
import TagAlias.Path
/-!
# Dialects

A source text is read in one of three dialects.  Which one it is follows from a name that is given for it, from the
suffix of its file, or is the dialect that takes both markup and types.
-/
namespace TagAlias

inductive Dialect where
  /-- Markup, no types. -/
  | javascript
  /-- Types, no markup. -/
  | typescript
  /-- Types and markup. -/
  | tsx
  deriving DecidableEq, Repr

namespace Dialect

def all : List Dialect := [javascript, typescript, tsx]

def name : Dialect → String
  | javascript => "javascript"
  | typescript => "typescript"
  | tsx => "tsx"

def ofName? (s : String) : Option Dialect := all.find? (·.name == s)

/-- The dialect of this name in any case of its letters. -/
def ofText? (s : String) : Option Dialect := ofName? (Text.lower s)

def ofValue (v : Value) : Except Failure Dialect :=
  match ofText? v.display with
  | some d => .ok d
  | none => .error (.config ("Unknown dialect '" ++ v.display ++ "' (expected one of: "
      ++ ", ".intercalate (all.map name) ++ ")"))

/-- The dialects of files by their suffix.  Scripts may hold types as well as markup; the dialect without types is
taken on request only. -/
def suffixTable : List (String × Dialect) :=
  [(".js", tsx), (".jsx", tsx), (".mjs", tsx), (".cjs", tsx), (".njs", tsx), (".ts", typescript), (".mts", typescript),
    (".cts", typescript), (".tsx", tsx), (".nts", tsx)]

/-- Values that name the dialects of further suffixes, or of known ones instead. -/
abbrev Overrides := List (String × Value)

/-- The dialect of a file: what the overrides say of its suffix, else the table, else `default`. -/
def ofFile (file : String) (overrides : Overrides) (default : Dialect) : Except Failure Dialect :=
  let suffix := (Path.ofString file).suffix
  match overrides.lookup suffix with
  | some v => ofValue v
  | none => .ok ((suffixTable.lookup suffix).getD default)

/-- The dialect that is named, or else that of the file. -/
def resolve (file : String) (overrides : Overrides) : Option String → Except Failure Dialect
  | some s =>
    match ofName? s with
    | some d => .ok d
    | none => .error (.refused (.unknownDialect s))
  | none => ofFile file overrides tsx

end Dialect

end TagAlias
