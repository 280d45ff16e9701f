import TagAlias.Message.Basic
import TagAlias.Message.Catalog
/-!
# Sending messages

A message that is sent gets its text from a catalog, with its parameters filled in.  A parameter that is missing gives a
text that tells of the fault; a template that is malformed refuses.  Without a receiver nothing is looked up or sent.
-/
namespace TagAlias

/-- A text as it is received. -/
structure Delivery where
  level : Level
  text : Str
  deriving DecidableEq, Repr

namespace Message

def placeMark : Str := ":\x7bline\x7d:\x7bcolumn\x7d"

/-- The template without the mark of a place. -/
def dropPlace : Str → Str
  | [] => []
  | c :: r =>
    if placeMark.isPrefixOf (c :: r) then (c :: r).drop placeMark.length else c :: dropPlace r

def faultText (id : Str) : Str := Str.ofString "<formatting_error for '" ++ id ++ Str.ofString "'>"

def textFrom {α : Type} [Template.Object α] (m : Message α) (template : Str) : Except Refusal Str :=
  match Template.fill m.params (if m.unplaced then dropPlace template else template) with
  | .ok s => .ok s
  | .error .missing => .ok (faultText m.id)
  | .error (.refused c) => .error c

end Message

/-- What messages pass through. -/
inductive Receiver where
  /-- Nobody listens. -/
  | absent
  /-- Texts are looked up and delivered. -/
  | texts
  /-- Messages are kept as they are. -/
  | messages
  deriving DecidableEq, Repr

/-- A bus with what it has delivered, first to last. -/
structure Bus (α : Type) where
  catalog : Catalog
  receiver : Receiver
  deliveries : List Delivery
  messages : List (Message α)

namespace Bus

variable {α : Type}

def of (c : Catalog) (r : Receiver) : Bus α := ⟨c, r, [], []⟩

def send [Template.Object α] (b : Bus α) (fs : Files) (m : Message α) : Bus α × Except Refusal Unit :=
  match b.receiver with
  | .absent => (b, .ok ())
  | .messages => ({ b with messages := b.messages ++ [m] }, .ok ())
  | .texts =>
    match b.catalog.get fs m.id none with
    | (c, .error e) => ({ b with catalog := c }, .error e)
    | (c, .ok template) =>
      match m.textFrom template with
      | .error e => ({ b with catalog := c }, .error e)
      | .ok s => ({ b with catalog := c, deliveries := b.deliveries ++ [⟨m.level, s⟩] }, .ok ())

/-- The names by which a bus takes what belongs to every message. -/
def reservedNames : List Str := ["self", "msg_id", "level"]

/-- Sends a message of a level with parameters, none of which may have a reserved name. -/
def emit [Template.Object α] (b : Bus α) (fs : Files) (level : Level) (id : Str) (params : Template.Params α) :
    Bus α × Except Refusal Unit :=
  if params.any (fun p => reservedNames.contains p.1) then (b, .error .wrongKind)
  else b.send fs (.of level id params)

def clear (b : Bus α) : Bus α := { b with deliveries := [], messages := [] }

end Bus

end TagAlias
