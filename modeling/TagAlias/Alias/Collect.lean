import TagAlias.Alias.Plan
import TagAlias.Component.Survey
/-!
# Which tags get aliases

A tag gets an alias in its method if it names a component, nothing declares the name where the tag stands, and the policy
lets roots of qualified names pass if it is one.  A method without a body has no place for an alias, and the first tag
that needs one there is told.  A qualified name's root is reported when its alias is new.
-/
namespace TagAlias

/-- What becomes of the root of a qualified tag name that nothing declares. -/
inductive MemberTagPolicy where
  | aliased
  | skipped
  deriving DecidableEq, Repr

namespace MemberTagPolicy

def name : MemberTagPolicy → String
  | aliased => "alias"
  | skipped => "skip"

def ofName? (s : String) : Option MemberTagPolicy := [aliased, skipped].find? (·.name == s)

end MemberTagPolicy

/-- A remark on something that was done and may not be what was meant. -/
structure Diagnostic where
  code : String
  message : String
  name : String
  method : String
  line : Int
  column : Int
  deriving DecidableEq, Repr

namespace Alias

/-- What decides about aliases: the stem of the names of component methods, and the policy. -/
structure Rule where
  stem : String
  policy : MemberTagPolicy
  deriving DecidableEq, Repr

/-- Whether the declarations around a tag matter. -/
def Rule.asks (rule : Rule) (r : TagReference) : Bool :=
  isComponentName r.name && !(r.isMemberRoot && rule.policy == .skipped)

def Rule.qualifies (rule : Rule) (r : TagReference) : Bool := rule.asks r && !r.bound

def memberRootAliased : String := "member-root-aliased"

def memberRootDiagnostic (stem : String) (m : ComponentMethod) (r : TagReference) : Diagnostic :=
  ⟨memberRootAliased, "<" ++ r.name ++ ".…> in '" ++ m.name ++ "' aliased to this." ++ stem ++ r.name,
    r.name, m.name, r.line, r.column⟩

def noBody (file : String) (m : ComponentMethod) (r : TagReference) : Failure :=
  .unsupported ⟨"Component method '" ++ m.name ++ "' has no body to receive the alias for <" ++ r.name ++ ">", file,
    r.line, r.column⟩ m.name

structure Collection where
  plan : Plan
  diagnostics : List Diagnostic
  deriving DecidableEq, Repr

/-- Where a method takes aliases. -/
def target? (m : ComponentMethod) : Option Int := if m.hasBody then m.bodyStart else none

def collectReference (rule : Rule) (file : String) (m : ComponentMethod) (c : Collection) (r : TagReference) :
    Except Failure Collection :=
  if !rule.qualifies r then .ok c
  else
    match target? m with
    | none => .error (noBody file m r)
    | some offset =>
      -- The point is there from now on, whether or not the name is new to it.
      let plan := c.plan.openAt offset m
      .ok ⟨plan.add offset r.name,
        c.diagnostics ++ if !plan.hasName offset r.name && r.isMemberRoot then [memberRootDiagnostic rule.stem m r] else []⟩

def collectMethod (rule : Rule) (file : String) (c : Collection) (m : ComponentMethod × List TagReference) :
    Except Failure Collection :=
  m.2.foldlM (collectReference rule file m.1) c

/-- What all the tags of the methods need. -/
def collect (rule : Rule) (file : String) (methods : List (ComponentMethod × List TagReference)) :
    Except Failure Collection :=
  methods.foldlM (collectMethod rule file) ⟨.empty, []⟩

/-- The same for a survey, whose fault comes after everything in it. -/
def collectSurvey (rule : Rule) (file : String) (s : Survey) : Except Failure Collection :=
  match collect rule file s.methods, s.fault with
  | .error e, _ => .error e
  | .ok _, some f => .error f
  | .ok c, none => .ok c

end Alias

end TagAlias
