import TagAlias.Syntax.Node
import TagAlias.Grammar.Cursor
/-!
# Parsers that build trees

A parser reads from a cursor and yields the nodes it built, which stand side by side in the node around them, and the
cursor right after the last token it took: blanks and comments are skipped before a token, never after one.  Choice is
ordered and commits to the first alternative that matches.
-/
namespace TagAlias.Grammar

abbrev Parser := Cursor → Option (List Node × Cursor)

/-- A node without children that spans the next `n` characters. -/
def leafNode (kind : String) (named : Bool) (c : Cursor) (n : Nat) : Node × Cursor :=
  let d := c.forward n
  (.mk ⟨kind, c.offset, d.offset, "", named, false⟩ [], d)

/-- The next `n` characters, at the cursor as it stands. -/
def taking (kind : String) (named : Bool) (n : Nat) : Parser := fun c =>
  let (node, d) := leafNode kind named c n
  some ([node], d)

def nothing : Parser := fun c => some ([], c)

def failing : Parser := fun _ => none

def inOrder : List Parser → Parser
  | [], c => some ([], c)
  | p :: ps, c =>
    match p c with
    | none => none
    | some (ns, c) =>
      match inOrder ps c with
      | none => none
      | some (ms, c) => some (ns ++ ms, c)

def firstOf : List Parser → Parser
  | [], _ => none
  | p :: ps, c =>
    match p c with
    | some r => some r
    | none => firstOf ps c

def optional (p : Parser) : Parser := fun c =>
  match p c with
  | some r => some r
  | none => some ([], c)

/-- At most `n` times, as long as it matches and moves on. -/
def repeatUpTo : Nat → Parser → Parser
  | 0, _, c => some ([], c)
  | n + 1, p, c =>
    match p c with
    | none => some ([], c)
    | some (ns, d) =>
      if d.offset ≤ c.offset then some ([], c)
      else
        match repeatUpTo n p d with
        | none => some (ns, d)
        | some (ms, e) => some (ns ++ ms, e)

def many (p : Parser) : Parser := fun c => repeatUpTo (c.rest.length + 1) p c

/-- A node of the given kind around what the parsers build.  It starts at the next token and stops where the last of
them does. -/
def rule (kind : String) (ps : List Parser) : Parser := fun c =>
  let c := c.skip
  match inOrder ps c with
  | none => none
  | some (ns, d) => some ([.mk ⟨kind, c.offset, d.offset, "", true, false⟩ ns], d)

/-- The nodes fill the field `f`. -/
def inField (f : String) (p : Parser) : Parser := fun c =>
  match p c with
  | none => none
  | some (ns, d) => some (ns.map (·.inField f), d)

/-- Goes on after `left`, taking it for the first child of the new node. -/
def around (kind : String) (f : String) (left : Node) (ps : List Parser) : Parser := fun c =>
  match inOrder ps c with
  | none => none
  | some (ns, d) => some ([.mk ⟨kind, left.start, d.offset, "", true, false⟩ (left.inField f :: ns)], d)

/-- Applies a step to the node built so far for as long as it matches, at most `n` times. -/
def growing (step : Node → Parser) : Nat → Node → Cursor → Node × Cursor
  | 0, left, c => (left, c)
  | n + 1, left, c =>
    match step left c with
    | some ([node], d) => growing step n node d
    | _ => (left, c)

/-- A first operand, and then steps that each take what came before for their first child. -/
def thenGrowing (p : Parser) (step : Node → Parser) : Parser := fun c =>
  match p c with
  | some ([node], d) =>
    let (node, e) := growing step (d.rest.length + 1) node d
    some ([node], e)
  | other => other

/-- Matches without taking anything, if the test holds at the next token. -/
def ahead (test : Cursor → Bool) : Parser := fun c => if test c.skip then some ([], c) else none

/-! ## Tokens -/

/-- The text itself, whatever follows it. -/
def tok (s : String) : Parser := fun c =>
  let c := c.skip
  if s.toList.isPrefixOf c.rest then taking s false s.length c else none

/-- The text as a whole punctuator: `=` does not match the start of `=>`. -/
def punct (s : String) : Parser := fun c =>
  let c := c.skip
  if c.punctuator == s then taking s false s.length c else none

/-- A name that is the given word, taken for a bare token. -/
def word (w : String) : Parser := fun c =>
  let c := c.skip
  match c.name? with
  | some (t, n) => if t == w then taking w false n c else none
  | none => none

def nameOf (kind : String) (test : String → Bool) : Parser := fun c =>
  let c := c.skip
  match c.name? with
  | some (t, n) => if test t then taking kind true n c else none
  | none => none

def Cursor.nextName (c : Cursor) : Option String := c.skip.name?.map (·.1)

def atWord (ws : List String) : Cursor → Bool := fun c =>
  match c.nextName with
  | some t => ws.contains t
  | none => false

/-- At least one, with a separator between. -/
def separated (sep : String) (p : Parser) : Parser := inOrder [p, many (inOrder [tok sep, p])]

/-- Any number, with a separator between and perhaps one after the last. -/
def listed (sep : String) (p : Parser) : Parser := optional (inOrder [separated sep p, optional (tok sep)])

/-- Any number with commas between, where any may be left out. -/
def withHoles (p : Parser) : Parser := inOrder [optional p, many (inOrder [tok ",", optional p])]

end TagAlias.Grammar
