import TagAlias.Alias.Collect
import TagAlias.Alias.Splice
import TagAlias.Module
import TagAlias.Text.Identifier
/-!
# Declaring the aliases of a module

A transformer has a rule for aliases and dialects for the suffixes of files.  It takes a source text, collects what its
tags need and declares that in the text.
-/
namespace TagAlias

/-- What has become of a source text. -/
structure Transformed where
  file : String
  given : String
  code : String
  plan : Plan
  diagnostics : List Diagnostic
  deriving DecidableEq, Repr

namespace Transformed

def changed (t : Transformed) : Bool := t.code != t.given

end Transformed

structure Transformer where
  rule : Alias.Rule
  overrides : Dialect.Overrides

namespace Transformer

def defaultStem : String := "render"

def stemOf (v : Value) : Except Failure String :=
  match v with
  | .text s => if Text.isIdentifier s then .ok s else .error (.config ("Invalid method prefix: " ++ v.quoted))
  | _ => if v.isPresent then .error (.refused .noSuchPart) else .error (.config ("Invalid method prefix: " ++ v.quoted))

def policyOf (v : Value) : Except Failure MemberTagPolicy :=
  match v with
  | .text s =>
    match MemberTagPolicy.ofName? s with
    | some p => .ok p
    | none => .error (.config ("Unknown member tag policy: " ++ v.quoted))
  | _ => .error (.config ("Unknown member tag policy: " ++ v.quoted))

/-- The transformer for a stem and a policy as they are given. -/
def ofValues (stem policy : Value) (overrides : Dialect.Overrides) : Except Failure Transformer := do
  let stem ← stemOf stem
  let policy ← policyOf policy
  return ⟨⟨stem, policy⟩, overrides⟩

def finish (t : Transformer) (file text : String) (c : Alias.Collection) : Except Failure Transformed :=
  if c.plan.isEmpty then .ok ⟨file, text, text, c.plan, c.diagnostics⟩
  else do
    let patched ← (c.plan.splice t.rule.stem (Bytes.ofString text)).mapError .refused
    let code ← patched.toString?.mapError (.refused ∘ .undecodable)
    return ⟨file, text, code, c.plan, c.diagnostics⟩

/-- Transforms a text, in the dialect that is named or else in that of its file. -/
def transform (t : Transformer) (parse : Parse) (text file : String) (dialect : Option String) :
    Except Failure Transformed := do
  let d ← Dialect.resolve file t.overrides dialect
  let m ← Module.read parse file d text
  let c ← Alias.collectSurvey t.rule file (m.survey t.rule.stem t.rule.asks)
  t.finish file text c

end Transformer

/-- A text with aliases for the given stem. -/
def transformSource (parse : Parse) (text file : String) (dialect : Option String) (stem : Value) :
    Except Failure String := do
  let t ← Transformer.ofValues stem (.text "alias") []
  let r ← t.transform parse text file dialect
  return r.code

end TagAlias
