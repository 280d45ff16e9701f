import TagAlias.Grammar.Markup
/-!
# Expressions

Operands, the calls and members reached from them, operators by how tightly they bind, conditionals, assignments and
arrow functions.  An arrow function is told from a parenthesized expression by the arrow: the parentheses are read as an
expression first, and as parameters only if that fails or an arrow follows.
-/
namespace TagAlias.Grammar

/-! ## Functions -/

def functionExpression (g : Rules) : Parser :=
  firstOf [
    rule "generator_function" [optional (word "async"), word "function", tok "*", functionName, callSignature g true,
      inField "body" (g.sub .block)],
    rule "function_expression" [optional (word "async"), word "function", functionName, callSignature g true,
      inField "body" (g.sub .block)]]
where
  functionName : Parser := inField "name" (optional (identifier g))

def arrowBody (g : Rules) (e : Ending) : Parser :=
  inOrder [punct "=>",
    inField "body" (firstOf [
      inOrder [ahead (·.peek == some '\x7b'), g.sub .block],
      g.sub (.expression e)])]

def bareArrow (g : Rules) (e : Ending) : Parser :=
  rule "arrow_function" [optional (modifier (word "async")), inField "parameter" (nameOf "identifier" (isOperandName g)),
    arrowBody g e]

def arrowFunction (g : Rules) (e : Ending) : Parser :=
  rule "arrow_function" [optional (inOrder [word "async", ahead (fun c => c.peek == some '(' || c.peek == some '<')]),
    if e.colon then inField "parameters" (formalParameters g) else callSignature g false, arrowBody g e]

/-- Parentheses: an expression, unless an arrow makes them parameters. -/
def parenthesized (g : Rules) : Parser :=
  rule "parenthesized_expression" [tok "(", sequence g .bracket,
    inField "type" (g.whenTyped (optional (typeMark g false)) nothing), tok ")"]

def parenthesizedOrArrow (g : Rules) (e : Ending) : Parser := fun c =>
  match parenthesized g c with
  | none => arrowFunction g e c
  | some r =>
    let mark := r.2.skip.punctuator
    if mark == "=>" || (mark == ":" && g.typed && !e.colon) then
      match arrowFunction g e c with
      | some a => some a
      | none => some r
    else some r

/-! ## Operands -/

def templateString (g : Rules) : Parser :=
  rule "template_string" [tok "\x60",
    templatePieces (rule "template_substitution" [tok "$\x7b", sequence g .bracket, tok "\x7d"]), tight "\x60"]

def array (g : Rules) : Parser :=
  rule "array" [tok "[", withHoles (firstOf [rule "spread_element" [tok "...", g.inner], g.inner]), tok "]"]

def newExpression (g : Rules) : Parser :=
  firstOf [
    rule "meta_property" [word "new", punct ".", word "target"],
    rule "new_expression" [word "new", inField "constructor" (g.sub .newTarget),
      inField "type_arguments" (g.whenTyped (optional (inOrder [typeArguments g, ahead (·.peek == some '(')])) nothing),
      inField "arguments" (optional (arguments g))]]

def wordOperand (g : Rules) (e : Ending) : Parser :=
  firstOf [
    inOrder [ahead (atWord ["function", "async"]), functionExpression g],
    inOrder [ahead (atWord ["async"]), arrowFunction g e],
    bareArrow g e,
    inOrder [ahead (atWord ["class"]), classExpression g],
    inOrder [ahead (atWord ["new"]), newExpression g],
    rule "meta_property" [word "import", punct ".", word "meta"],
    inOrder [rule "import" [word "import"], ahead (fun c => c.peek == some '(' || c.peek == some '.')],
    leafWord "this", leafWord "super", leafWord "true", leafWord "false", leafWord "null", leafWord "undefined",
    nameOf "identifier" (isOperandName g)]
where
  leafWord (w : String) : Parser := nameOf w (· == w)

def primary (g : Rules) (e : Ending) : Parser := fun c =>
  let c := skipToOperand (c.rest.length + 1) c
  match c.peek with
  | none => none
  | some d =>
    if d == '(' then parenthesizedOrArrow g e c
    else if d == '[' then array g c
    else if d == '\x7b' then object g c
    else if d == '<' then
      firstOf [
        g.whenTyped (inOrder [arrowFunction g e]) failing,
        if g.markup then g.sub .element
        else rule "type_assertion" [typeArguments g, g.sub (.unary e)]] c
    else if d == '\x60' then templateString g c
    else if d == '"' || d == '\'' then string c
    else if d == '/' then regex c
    else if d == '#' then inOrder [privateName, ahead (atWord ["in"])] c
    else if d == '@' then classExpression g c
    else if d.isDigit || d == '.' then number c
    else wordOperand g e c

/-! ## Members and calls -/

def memberStep (g : Rules) (left : Node) : Parser :=
  let name := inField "property" (firstOf [nameOf "property_identifier" (fun _ => true), privateName])
  let chain := inField "optional_chain" (rule "optional_chain" [punct "?."])
  firstOf [
    around "member_expression" "object" left [punct ".", name],
    around "member_expression" "object" left [chain, name],
    around "subscript_expression" "object" left
      [optional chain, tok "[", inField "index" (sequence g .bracket), tok "]"]]

def callStep (g : Rules) (left : Node) : Parser :=
  firstOf [
    around "call_expression" "function" left [inField "arguments" (arguments g)],
    around "call_expression" "function" left [inField "arguments" (templateString g)],
    around "call_expression" "function" left [punct "?.",
      inField "type_arguments" (g.whenTyped (optional (typeArguments g)) nothing), inField "arguments" (arguments g)],
    g.whenTyped
      (around "call_expression" "function" left [inField "type_arguments" (typeArguments g),
        inField "arguments" (firstOf [arguments g, templateString g])])
      failing]

def nonNullStep (g : Rules) (e : Ending) (left : Node) : Parser := fun c =>
  if g.typed && !e.stopsAt g c then around "non_null_expression" "" left [punct "!"] c else none

def newTarget (g : Rules) : Parser :=
  thenGrowing (primary g .bracket) (fun left => firstOf [memberStep g left, nonNullStep g .bracket left])

def postfixed (g : Rules) (e : Ending) : Parser := fun c =>
  match thenGrowing (primary g e)
      (fun left => firstOf [memberStep g left, callStep g left, nonNullStep g e left]) c with
  | some ([node], d) =>
    if e.stopsAt g d then some ([node], d)
    else
      firstOf [
        around "update_expression" "argument" node [inField "operator" (firstOf [punct "++", punct "--"])],
        fun c => some ([node], c)] d
  | other => other

/-! ## Operators -/

def unary (g : Rules) (e : Ending) : Parser := fun c =>
  let c := skipToOperand (c.rest.length + 1) c
  let operand := inField "argument" (g.sub (.unary e))
  let sign := c.punctuator
  if ["!", "~", "-", "+"].contains sign then
    rule "unary_expression" [inField "operator" (punct sign), operand] c
  else if sign == "++" || sign == "--" then
    rule "update_expression" [inField "operator" (punct sign), operand] c
  else
    match c.nextName with
    | none => postfixed g e c
    | some w =>
      if ["typeof", "void", "delete"].contains w then
        rule "unary_expression" [inField "operator" (word w), operand] c
      else if w == "await" then
        firstOf [rule "await_expression" [word "await", g.sub (.unary e)], postfixed g e] c
      else postfixed g e c

/-- How tightly an operator between two operands binds; the higher, the tighter. -/
def binaryLevel : String → Option Nat
  | "??" => some 1
  | "||" => some 2
  | "&&" => some 3
  | "|" => some 4
  | "^" => some 5
  | "&" => some 6
  | "==" | "!=" | "===" | "!==" => some 7
  | "<" | "<=" | ">" | ">=" | "in" | "instanceof" => some 8
  | "<<" | ">>" | ">>>" => some 9
  | "+" | "-" => some 10
  | "*" | "/" | "%" => some 11
  | "**" => some 12
  | _ => none

def startsOperand (c : Cursor) : Bool :=
  match c.skip.peek with
  | none => false
  | some d => !",;)]\x7d:?.=&|*%^>".toList.contains d

def binaryStep (g : Rules) (e : Ending) (level : Nat) (left : Node) : Parser := fun c =>
  let d := c.skip
  let sign := match d.name? with
    | some (w, _) => w
    | none => d.punctuator
  let mark := if d.name?.isSome then word sign else punct sign
  match binaryLevel sign with
  | some l =>
    if l < level || (d.name?.isSome && e.stopsAt g c) then none
    else
      firstOf [
        if sign == "<" && g.typed then
          around "instantiation_expression" "" left [inField "type_arguments" (typeArguments g),
            ahead (!startsOperand ·)]
        else failing,
        around "binary_expression" "left" left [inField "operator" mark,
          inField "right" (g.sub (.operand e (if sign == "**" then l else l + 1)))]] c
  | none =>
    if !g.typed || 8 < level || e.stopsAt g c then none
    else if sign == "as" then
      around "as_expression" "" left [word "as", firstOf [
        inOrder [word "const"], g.sub (.typeTerm e.line)]] c
    else if sign == "satisfies" then
      around "satisfies_expression" "" left [word "satisfies", g.sub (.typeTerm e.line)] c
    else none

def operand (g : Rules) (e : Ending) (level : Nat) : Parser :=
  thenGrowing (g.sub (.unary e)) (fun left => binaryStep g e level left)

/-- Whether the question mark here begins the branches of a conditional: in a typed dialect it may also make the
parameter before it optional. -/
def asksCondition (g : Rules) (c : Cursor) : Bool :=
  let d := c.skip
  d.punctuator == "?" &&
    !(g.typed && match (d.forward 1).skip.peek with
      | some e => e == ':' || e == ')' || e == ','
      | none => false)

def conditional (g : Rules) (e : Ending) : Parser := fun c =>
  match operand g e 0 c with
  | some ([test], d) =>
    if asksCondition g d then
      around "ternary_expression" "condition" test [tok "?",
        inField "consequence" (g.sub (.expression ⟨false, true⟩)), tok ":",
        inField "alternative" (g.sub (.expression e))] d
    else some ([test], d)
  | other => other

/-! ## Assignments -/

def assignmentMarks : List String :=
  ["+=", "-=", "*=", "/=", "%=", "^=", "&=", "|=", ">>=", ">>>=", "<<=", "**=", "&&=", "||=", "??="]

def assignable : List String :=
  ["identifier", "member_expression", "subscript_expression", "parenthesized_expression", "non_null_expression"]

def yieldExpression (g : Rules) (e : Ending) : Parser := fun c =>
  rule "yield_expression" [word "yield",
    firstOf [
      inOrder [punct "*", g.sub (.expression e)],
      fun d => if e.stopsAt g d then none else g.sub (.expression e) d,
      nothing]] c

def expression (g : Rules) (e : Ending) : Parser := fun c =>
  let c := skipToOperand (c.rest.length + 1) c
  let plain : Parser := fun c =>
    match conditional g e c with
    | some ([left], d) =>
      let sign := d.skip.punctuator
      if !assignable.contains left.kind then some ([left], d)
      else if sign == "=" then
        around "assignment_expression" "left" left [punct "=", inField "right" (g.sub (.expression e))] d
      else if assignmentMarks.contains sign then
        around "augmented_assignment_expression" "left" left
          [inField "operator" (punct sign), inField "right" (g.sub (.expression e))] d
      else some ([left], d)
    | other => other
  if c.peek == some '\x7b' || c.peek == some '[' then
    firstOf [
      rule "assignment_expression" [inField "left" (destructuring g), punct "=", inField "right" (g.sub (.expression e))],
      plain] c
  else if c.nextName == some "yield" then yieldExpression g e c
  else plain c

end TagAlias.Grammar
