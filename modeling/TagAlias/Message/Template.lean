import TagAlias.Failure
import TagAlias.Message.Layout
/-!
# Templates

A template is text with fields in braces; a brace that is text is doubled.  A field names a parameter, may go on to a
part of it, and may ask for its quoted form and for a layout, which may have fields of its own.  Fields are filled from
the left, and the first that cannot be ends it.

What a parameter does when a field asks something of it is its own affair: it is an `Object`.
-/
namespace TagAlias

/-- Why a template cannot be filled. -/
inductive TemplateFault where
  /-- A parameter, or a part of one, is not there: what is asked for has no such key or number. -/
  | missing
  | refused (cause : Refusal)
  deriving DecidableEq, Repr

namespace Template

def malformed : TemplateFault := .refused .malformedTemplate

/-! ## What is asked of a parameter -/

/-- What stands in brackets. -/
inductive Key where
  | number (n : Nat)
  | name (s : Str)
  deriving DecidableEq, Repr

inductive Form where
  | plain
  | quoted
  /-- Quoted, with all that is not ASCII by its number. -/
  | ascii
  deriving DecidableEq, Repr

/-- Values with which templates are filled.  Each may fail a request, with a fault of its own. -/
class Object (α : Type) where
  named : α → Str → Except TemplateFault α
  item : α → Key → Except TemplateFault α
  inForm : α → Form → Except TemplateFault α
  lay : α → Str → Except TemplateFault Str

abbrev Params (α : Type) := List (Str × α)

/-! ## The pieces of a template -/

/-- A field as it is written. -/
structure Field where
  name : Str
  /-- The letter of the form that is asked for. -/
  form : Option CodePoint
  layout : Str
  deriving DecidableEq, Repr

/-- A character of the text that is given, or a field that is filled. -/
inductive Piece where
  | char (c : CodePoint)
  | field (f : Field)
  deriving DecidableEq, Repr

/-- What follows the name of a field and its end, where brackets hold anything. -/
def fieldName (inBrackets : Bool) (done : Str) : Str → Option (Str × CodePoint × Str)
  | [] => none
  | c :: r =>
    if inBrackets then fieldName (c != ']') (c :: done) r
    else if c == '\x7b' then none
    else if c == '\x7d' || c == ':' || c == '!' then some (done.reverse, c, r)
    else fieldName (c == '[') (c :: done) r

/-- A layout up to the brace that closes its field; `depth` braces are open. -/
def layoutText (depth : Nat) (done : Str) : Str → Option (Str × Str)
  | [] => none
  | c :: r =>
    if c == '\x7b' then layoutText (depth + 1) (c :: done) r
    else if c == '\x7d' then
      match depth with
      | 0 => some (done.reverse, r)
      | d + 1 => layoutText d (c :: done) r
    else layoutText depth (c :: done) r

/-- A field whose opening brace has been read, and what follows it. -/
def field? (cs : Str) : Option (Field × Str) :=
  match fieldName false [] cs with
  | none => none
  | some (name, stop, r) =>
    if stop == '\x7d' then some (⟨name, none, []⟩, r)
    else if stop == ':' then (layoutText 0 [] r).map (fun (l, r) => (⟨name, none, l⟩, r))
    else
      match r with
      | form :: .char '\x7d' :: r => some (⟨name, some form, []⟩, r)
      | form :: .char ':' :: r => (layoutText 0 [] r).map (fun (l, r) => (⟨name, some form, l⟩, r))
      | _ => none

theorem fieldName_shorter {inBrackets : Bool} {done name : Str} {stop : CodePoint} {cs r : Str}
    (h : fieldName inBrackets done cs = some (name, stop, r)) : r.length < cs.length := by
  induction cs generalizing inBrackets done with
  | nil => cases h
  | cons c cs ih =>
    have hrest : ∀ {b done'}, fieldName b done' cs = some (name, stop, r) → r.length < (c :: cs).length :=
      fun h => Nat.lt_succ_of_lt (ih h)
    rw [fieldName] at h
    split at h
    · exact hrest h
    · split at h
      · cases h
      · split at h
        · cases h
          exact Nat.lt_succ_self _
        · exact hrest h

theorem layoutText_shorter {depth : Nat} {done layout : Str} {cs r : Str}
    (h : layoutText depth done cs = some (layout, r)) : r.length < cs.length := by
  induction cs generalizing depth done with
  | nil => cases h
  | cons c cs ih =>
    have hrest : ∀ {d done'}, layoutText d done' cs = some (layout, r) → r.length < (c :: cs).length :=
      fun h => Nat.lt_succ_of_lt (ih h)
    unfold layoutText at h
    split at h
    · exact hrest h
    · split at h
      · split at h
        · cases h
          exact Nat.lt_succ_self _
        · exact hrest h
      · exact hrest h

theorem field?_shorter {f : Field} {cs r : Str} (h : field? cs = some (f, r)) : r.length < cs.length := by
  unfold field? at h
  split at h
  · cases h
  · next name stop rest hname =>
    have hrest := fieldName_shorter hname
    have hlayout : ∀ {form : Option CodePoint} {cs' : Str}, cs'.length ≤ rest.length →
        (layoutText 0 [] cs').map (fun x => (⟨name, form, x.1⟩, x.2)) = some (f, r) → r.length < cs.length := by
      intro form cs' hle h
      obtain ⟨⟨layout, r'⟩, htext, heq⟩ := Option.map_eq_some_iff.1 h
      cases heq
      exact Nat.lt_of_lt_of_le (layoutText_shorter htext) (Nat.le_of_lt (Nat.lt_of_le_of_lt hle hrest))
    split at h
    · cases h
      exact hrest
    · split at h
      · exact hlayout (Nat.le_refl _) h
      · split at h
        · cases h
          simp only [List.length_cons] at hrest
          omega
        · exact hlayout (by simp only [List.length_cons]; omega) h
        · cases h

/-- The piece at the beginning of a template and what follows it. -/
def piece? : Str → Option (Piece × Str)
  | .char '\x7b' :: .char '\x7b' :: r => some (.char '\x7b', r)
  | .char '\x7d' :: .char '\x7d' :: r => some (.char '\x7d', r)
  | .char '\x7d' :: _ => none
  | .char '\x7b' :: r => (field? r).map (fun (f, r) => (.field f, r))
  | c :: r => some (.char c, r)
  | [] => none

theorem piece?_shorter {p : Piece} {cs r : Str} (h : piece? cs = some (p, r)) : r.length < cs.length := by
  unfold piece? at h
  split at h
  · cases h
    simp only [List.length_cons]
    omega
  · cases h
    simp only [List.length_cons]
    omega
  · cases h
  · obtain ⟨⟨f, r'⟩, hfield, heq⟩ := Option.map_eq_some_iff.1 h
    cases heq
    exact Nat.lt_succ_of_lt (field?_shorter hfield)
  · cases h
    exact Nat.lt_succ_self _
  · cases h

/-- The pieces of a template, and what is left where none can be read. -/
def pieces (cs : Str) : List Piece × Str :=
  match _h : piece? cs with
  | none => ([], cs)
  | some (p, r) => (p :: (pieces r).1, (pieces r).2)
termination_by cs.length
decreasing_by all_goals exact piece?_shorter ‹_›

/-! ## The value of a field -/

/-- The number that a part of a name is, if it is one.  Too large a number is malformed, whatever follows it. -/
def number? (cs : Str) : Except TemplateFault (Option Nat) :=
  let ds := cs.takeWhile CodePoint.isDecimal
  if Layout.numberLimit < Text.ofDecimals (Str.chars ds) then .error malformed
  else .ok (if !cs.isEmpty && ds.length == cs.length then some (Text.ofDecimals (Str.chars ds)) else none)

/-- A step from a value to a part of it. -/
inductive Step where
  | named (name : Str)
  | item (name : Str)
  deriving DecidableEq, Repr

/-- The step at the beginning of what follows a name, and what follows the step. -/
def step? : Str → Option (Step × Str)
  | .char '.' :: r =>
    let name := r.takeWhile (fun c : CodePoint => c != '.' && c != '[')
    if name.isEmpty then none else some (.named name, r.drop name.length)
  | .char '[' :: r =>
    let name := r.takeWhile (fun c : CodePoint => c != ']')
    if name.isEmpty || name.length == r.length then none else some (.item name, r.drop (name.length + 1))
  | _ => none

theorem step?_shorter {s : Step} {cs r : Str} (h : step? cs = some (s, r)) : r.length < cs.length := by
  unfold step? at h
  split at h
  · dsimp only at h
    split at h
    · cases h
    · cases h
      simp only [List.length_drop, List.length_cons]
      omega
  · dsimp only at h
    split at h
    · cases h
    · cases h
      simp only [List.length_drop, List.length_cons]
      omega
  · cases h

section

variable {α : Type} [Object α]

def Step.take (v : α) : Step → Except TemplateFault α
  | .named name => Object.named v name
  | .item name => do
    match ← number? name with
    | some n => Object.item v (.number n)
    | none => Object.item v (.name name)

/-- The part of a value to which the rest of a field's name leads. -/
def follow (v : α) (cs : Str) : Except TemplateFault α :=
  match _h : step? cs with
  | none => if cs.isEmpty then .ok v else .error malformed
  | some (s, r) => do
    let w ← s.take v
    follow w r
termination_by cs.length
decreasing_by exact step?_shorter ‹_›

/-- The value that the name of a field stands for.  Parameters have names, so a number or no name finds none. -/
def resolve (params : Params α) (name : Str) : Except TemplateFault α := do
  let first := name.takeWhile (fun c : CodePoint => c != '.' && c != '[')
  match ← number? first, params.lookup first with
  | none, some v => if first.isEmpty then .error .missing else follow v (name.drop first.length)
  | _, _ => .error .missing

/-- The form of a value that a letter asks for; the letter with the number zero asks for none. -/
def inForm (v : α) : Option CodePoint → Except TemplateFault α
  | none => .ok v
  | some (.char '\x00') => .ok v
  | some (.char 's') => Object.inForm v .plain
  | some (.char 'r') => Object.inForm v .quoted
  | some (.char 'a') => Object.inForm v .ascii
  | some _ => .error malformed

/-! ## Filling -/

def textOf (params : Params α) (fillIn : Str → Except TemplateFault Str) : Piece → Except TemplateFault Str
  | .char c => .ok [c]
  | .field f => do
    let v ← resolve params f.name
    let v ← inForm v f.form
    -- Fields in a layout are filled first, with what is given to the whole template.
    let layout ← if f.layout.contains '\x7b' then fillIn f.layout else .ok f.layout
    Object.lay v layout

/-- Fills a template, with so many levels of fields in layouts. -/
def fillFrom (params : Params α) : Nat → Str → Except TemplateFault Str
  | 0, _ => .error malformed
  | depth + 1, cs => do
    let texts ← (pieces cs).1.mapM (textOf params (fillFrom params depth))
    if (pieces cs).2.isEmpty then return texts.flatten else .error malformed

/-- How deep fields may stand in each other. -/
def nesting : Nat := 2

def fill (params : Params α) (template : Str) : Except TemplateFault Str := fillFrom params nesting template

end

end Template

end TagAlias
