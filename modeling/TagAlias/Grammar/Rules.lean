import TagAlias.Dialect
import TagAlias.Grammar.Parser
/-!
# What the rules of the grammar share

The grammar's rules call each other in circles.  A circle is cut at the few nonterminals of `Goal`: a rule reaches these
through `Rules.sub` only, and `TagAlias.Grammar.Program` ties the knot.  The rest of the module holds what every part of
the grammar asks: which words may be names in a dialect, and where a statement without a semicolon ends.
-/
namespace TagAlias.Grammar

/-- What may end an expression besides the token that its rule asks for next. -/
structure Ending where
  /-- A line break may: the expression stands last in a statement. -/
  line : Bool
  /-- A colon may: the expression stands between the marks of a conditional. -/
  colon : Bool
  deriving DecidableEq, Repr

/-- Inside brackets nothing but the bracket ends an expression. -/
def Ending.bracket : Ending := ⟨false, false⟩

def Ending.statement : Ending := ⟨true, false⟩

/-- The nonterminals through which the rules call each other in circles. -/
inductive Goal where
  | statement
  | block
  | expression (e : Ending)
  /-- An operand of operators that bind at least as tightly as `level`. -/
  | operand (e : Ending) (level : Nat)
  | unary (e : Ending)
  /-- What `new` may be applied to. -/
  | newTarget
  | pattern
  | typeTerm (line : Bool)
  | primaryType (line : Bool)
  | element
  deriving DecidableEq, Repr

structure Rules where
  dialect : Dialect
  sub : Goal → Parser

namespace Rules

def typed (g : Rules) : Bool := g.dialect != .javascript

def markup (g : Rules) : Bool := g.dialect != .typescript

def inner (g : Rules) : Parser := g.sub (.expression .bracket)

def whenTyped (g : Rules) (p q : Parser) : Parser := if g.typed then p else q

end Rules

/-! ## Words -/

/-- The words that are never names in plain scripts. -/
def reservedWords : List String :=
  ["break", "case", "catch", "class", "const", "continue", "debugger", "default", "delete", "do", "else", "export",
    "extends", "false", "finally", "for", "function", "if", "import", "in", "instanceof", "new", "null", "return",
    "super", "switch", "this", "throw", "true", "try", "typeof", "var", "void", "while", "with"]

/-- The words that mean something of their own where an operand may start. -/
def operandWords : List String :=
  ["await", "class", "delete", "false", "function", "import", "new", "null", "super", "this", "true", "typeof", "void",
    "yield"]

/-- The words that begin a statement and are no names there. -/
def statementWords : List String :=
  ["abstract", "break", "case", "const", "continue", "debugger", "default", "do", "enum", "for", "if", "interface", "return", "switch",
    "throw", "try", "var", "while", "with"]

/-- Whether a word may be the name of an operand.  The typed dialects keep a word for themselves only where it would
mean something. -/
def isOperandName (g : Rules) (w : String) : Bool :=
  !(if g.typed then operandWords else reservedWords).contains w

def isBindingName (g : Rules) (w : String) : Bool := g.typed || !reservedWords.contains w

def identifier (g : Rules) : Parser := nameOf "identifier" (isBindingName g)

def typeIdentifier (g : Rules) : Parser :=
  nameOf (if g.typed then "type_identifier" else "identifier") (isBindingName g)

/-! ## Where a statement ends without a semicolon

A statement may end before a closing brace, at the end of the text, and at a line break unless the next line begins with
a token that carries the statement on.  In the typed dialects the comments that follow on the same line belong to the
statement, so its end moves past them; in plain scripts they do only if no closing brace comes next. -/

/-- Whether a line that begins here begins a statement of its own.  A bracket carries on what comes before it, but in a
typed dialect only if that is an operand. -/
def startsAnew (typed operand : Bool) (text : List Char) : Bool :=
  match text with
  | [] => true
  | '.' :: d :: _ => !typed && d.isDigit
  | '+' :: d :: _ => d == '+'
  | '-' :: d :: _ => d == '-'
  | '!' :: d :: _ => d != '='
  | 'i' :: 'n' :: r =>
    match r with
    | [] => false
    | d :: _ => d.isAlpha && !("stanceof".toList.isPrefixOf r && !((r.drop 8).head?.any Char.isAlpha))
  | c :: _ =>
    if c == '(' || c == '[' then typed && !operand else !"\x60,.;*%><=?^|&/:+-".toList.contains c

/-- Past blanks of the narrower class and comments; `none` before a slash that begins no comment. -/
def pastSpace : Nat → Cursor → Option Cursor
  | 0, c => some c
  | n + 1, c =>
    let c := c.forward (c.rest.takeWhile isSpace).length
    match c.rest with
    | '/' :: _ =>
      match commentLength c.rest with
      | some k => pastSpace n (c.forward k)
      | none => none
    | _ => some c

/-- Whether the lines from the cursor on begin with a statement of their own. -/
def lineBelow (typed operand : Bool) (c : Cursor) : Bool :=
  match pastSpace (c.rest.length + 1) c with
  | none => false
  | some d => startsAnew typed operand d.rest

/-- In a typed dialect: where the statement whose last token or comment ends at `stop` ends, looking from `c` on. -/
def typedEnd (operand : Bool) : Nat → Cursor → Cursor → Option Cursor
  | 0, _, _ => none
  | n + 1, stop, c =>
    match c.rest with
    | [] => some stop
    | '\n' :: _ => if lineBelow true operand (c.forward 1) then some stop else none
    | d :: _ =>
      if d == '\x7d' then some stop
      else if isSpace d then typedEnd operand n stop (c.forward 1)
      else
        match commentLength c.rest with
        | some k => typedEnd operand n (c.forward k) (c.forward k)
        | none => none

/-- In plain scripts: the same, where a comment on the line moves the end only if no closing brace follows. -/
def plainEnd : Nat → Cursor → Cursor → Option Cursor
  | 0, _, _ => none
  | n + 1, stop, c =>
    match c.rest with
    | [] => some stop
    | d :: _ =>
      if d == '\x7d' then some stop
      else if d == '\n' || d == '\u2028' || d == '\u2029' then
        if lineBelow false true (c.forward 1) then some stop else none
      else if isSpace d then plainEnd n stop (c.forward 1)
      else
        match commentLength c.rest with
        | none => none
        | some k =>
          let e := c.forward k
          let carriesOn := ((pastSpace (e.rest.length + 1) e).bind (·.peek)) == some '\x7d'
          match e.rest with
          | f :: _ =>
            if carriesOn then some stop
            else if c.rest.take 2 == ['/', '*'] && isSpace f then plainEnd n stop e
            else plainEnd n e e
          | [] => plainEnd n e e

/-- Where a statement that has no semicolon ends, if it may end here; `operand` says that an operand comes before. -/
def impliedEnd (g : Rules) (operand : Bool) (c : Cursor) : Option Cursor :=
  if g.typed then typedEnd operand (c.rest.length + 1) c c else plainEnd (c.rest.length + 1) c c

/-- The end of a statement: a semicolon, be it on a later line, or none where none is needed. -/
def endAfter (g : Rules) (operand : Bool) : Parser := fun c =>
  match tok ";" c with
  | some r => some r
  | none => (impliedEnd g operand c).map (fun d => ([], d))

def terminator (g : Rules) : Parser := endAfter g true

/-- Whether an expression with this ending stops here, before an operator that would otherwise carry it on. -/
def Ending.stopsAt (e : Ending) (g : Rules) (c : Cursor) : Bool :=
  e.line && c.breaksLine && (impliedEnd g true c).isSome

end TagAlias.Grammar
