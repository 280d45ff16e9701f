import TagAlias.Grammar.Signatures
/-!
# Types

The terms of the typed dialects that stand for types.  They bind no names; the rules only have to find where a type
ends, and what expressions and patterns it holds.
-/
namespace TagAlias.Grammar

def predefinedTypes : List String :=
  ["any", "number", "boolean", "string", "symbol", "void", "unknown", "never", "object"]

def predefinedType : Parser :=
  rule "predefined_type" [firstOf (inOrder [word "unique", word "symbol"] :: predefinedTypes.map word)]

def namedType (g : Rules) : Parser := fun c =>
  let plain := firstOf [qualified, typeIdentifier g]
  match plain c with
  | some ([name], d) =>
    firstOf [
      around "generic_type" "name" name [inField "type_arguments" (typeArguments g)],
      fun c => some ([name], c)] d
  | _ => none
where
  /-- Names with dots between: all but the last name the namespace. -/
  qualified : Parser := fun c =>
    match inOrder [identifier g, punct ".", many (inOrder [identifier g, punct "."]), typeIdentifier g] c with
    | some (m :: ns, d) => some ([nest m ns], d)
    | _ => none
  nest (m : Node) : List Node → Node
    | [dot, t] => .mk ⟨"nested_type_identifier", m.start, t.stop, "", true, false⟩
        [m.inField "module", dot, t.inField "name"]
    | dot :: p :: r =>
      nest (.mk ⟨"nested_identifier", m.start, p.stop, "", true, false⟩
        [m.inField "object", dot, p.inField "property"]) r
    | _ => m

/-! ## Object types -/

def indexSignature (g : Rules) (line : Bool) : Parser :=
  rule "index_signature" [
    optional (inOrder [inField "sign" (optional (firstOf [punct "-", punct "+"])), word "readonly"]),
    tok "[",
    firstOf [
      inOrder [inField "name" (nameOf "identifier" (fun _ => true)), tok ":", inField "index_type" (g.sub (.typeTerm false))],
      rule "mapped_type_clause" [inField "name" (typeIdentifier g), word "in", inField "type" (g.sub (.typeTerm false)),
        optional (inOrder [word "as", inField "alias" (g.sub (.typeTerm false))])]],
    tok "]",
    inField "type" (firstOf [
      rule "omitting_type_annotation" [tok "-?:", g.sub (.typeTerm line)],
      rule "adding_type_annotation" [tok "+?:", g.sub (.typeTerm line)],
      rule "opting_type_annotation" [tok "?:", g.sub (.typeTerm line)],
      typeMark g line])]

def memberModifiers : Parser :=
  many (modifier (firstOf [accessibility, overriding, word "static", word "readonly", word "async", word "get", word "set"]))

def typeMember (g : Rules) : Parser :=
  firstOf [
    indexSignature g true,
    rule "construct_signature" [optional (word "abstract"), word "new",
      inField "type_parameters" (optional (typeParameters g)), inField "parameters" (formalParameters g),
      inField "type" (optional (typeMark g true))],
    rule "call_signature" [callSignature g true],
    rule "method_signature" [memberModifiers, optional (punct "*"), inField "name" (propertyName g), optional (tok "?"),
      callSignature g true],
    rule "property_signature" [memberModifiers, inField "name" (propertyName g), optional (tok "?"),
      inField "type" (optional (typeMark g true))]]

/-- Members between braces, separated by commas, semicolons or line breaks. -/
def objectType (g : Rules) (kind : String) : Parser :=
  let separator := firstOf [tok ",", endAfter g false]
  rule kind [tok "\x7b", optional (firstOf [tok ",", tok ";"]),
    many (inOrder [typeMember g, separator]), optional (typeMember g), tok "\x7d"]

/-! ## Compound types -/

def functionType (g : Rules) (line : Bool) : Parser :=
  rule "function_type" [
    inField "type_parameters" (optional (typeParameters g)), inField "parameters" (formalParameters g), punct "=>",
    inField "return_type" (firstOf [assertion g line, typePredicate g line, g.sub (.typeTerm line)])]

def constructorType (g : Rules) (line : Bool) : Parser :=
  rule "constructor_type" [optional (word "abstract"), word "new",
    inField "type_parameters" (optional (typeParameters g)), inField "parameters" (formalParameters g), punct "=>",
    inField "type" (g.sub (.typeTerm line))]

def tupleType (g : Rules) : Parser :=
  let type := g.sub (.typeTerm false)
  rule "tuple_type" [tok "[",
    listed "," (firstOf [
      rule "required_parameter" [inField "name" (firstOf [rule "rest_pattern" [tok "...", identifier g], identifier g]),
        inField "type" (typeMark g false)],
      rule "optional_parameter" [inField "name" (identifier g), tok "?", inField "type" (typeMark g false)],
      rule "rest_type" [tok "...", type],
      rule "optional_type" [type, tok "?"],
      type]),
    tok "]"]

def literalType : Parser :=
  rule "literal_type" [firstOf [
    rule "unary_expression" [inField "operator" (firstOf [punct "-", punct "+"]), inField "argument" number],
    number, string, rule "true" [word "true"], rule "false" [word "false"], rule "null" [word "null"],
    rule "undefined" [word "undefined"]]]

/-- What the type of is asked for: a name, and members, elements and type arguments reached from it. -/
def typeQuery (g : Rules) : Parser :=
  rule "type_query" [word "typeof",
    thenGrowing
      (firstOf [
        rule "this" [word "this"],
        rule "call_expression" [rule "import" [word "import"], arguments g],
        nameOf "identifier" (isOperandName g)])
      (fun left => firstOf [
        around "member_expression" "object" left [punct ".", inField "property"
          (firstOf [nameOf "property_identifier" (fun _ => true), privateName])],
        around "subscript_expression" "object" left [tok "[", inField "index" (firstOf [string, number]), tok "]"],
        around "instantiation_expression" "" left [inField "type_arguments" (typeArguments g)]])]

def templateType (g : Rules) : Parser :=
  rule "template_literal_type" [tok "\x60",
    templatePieces (rule "template_type" [tok "$\x7b", g.sub (.typeTerm false), tok "\x7d"]), tight "\x60"]

/-- Types that need no parentheses before brackets. -/
def primaryType (g : Rules) (line : Bool) : Parser :=
  thenGrowing
    (firstOf [
      rule "parenthesized_type" [tok "(", g.sub (.typeTerm false), tok ")"],
      objectType g "object_type", tupleType g, literalType, templateType g,
      typeQuery g,
      inOrder [ahead (atWord ["keyof"]), rule "index_type_query" [word "keyof", g.sub (.primaryType line)]],
      rule "this_type" [word "this"],
      inOrder [rule "call_expression" [rule "import" [word "import"], arguments g]],
      predefinedAlone, namedType g,
      rule "existential_type" [tok "*"],
      rule "flow_maybe_type" [tok "?", g.sub (.primaryType line)]])
    (fun left => firstOf [
      inOrder [sameLine, around "array_type" "" left [tok "[", tok "]"]],
      inOrder [sameLine, around "lookup_type" "" left [tok "[", g.sub (.typeTerm false), tok "]"]],
      inOrder [ahead (fun _ => left.kind == "call_expression"),
        around "member_expression" "object" left [punct ".", inField "property" (nameOf "property_identifier" (fun _ => true))]]])
where
  /-- A predefined word, unless it is the first name of a path. -/
  predefinedAlone : Parser := fun c =>
    match predefinedType c with
    | some (ns, d) => if d.skip.peek == some '.' then none else some (ns, d)
    | none => none
  sameLine : Parser := fun c => if line && c.breaksLine then none else some ([], c)

def unaryType (g : Rules) (line : Bool) : Parser :=
  firstOf [
    inOrder [ahead (fun c => c.peek == some '(' || c.peek == some '<'), functionType g line],
    inOrder [ahead (atWord ["new", "abstract"]), constructorType g line],
    inOrder [ahead (atWord ["readonly"]), rule "readonly_type" [word "readonly", g.sub (.primaryType line)]],
    inOrder [ahead (atWord ["infer"]), rule "infer_type" [word "infer", typeIdentifier g,
      optional (inOrder [word "extends", g.sub (.primaryType line)])]],
    g.sub (.primaryType line)]

/-- Operands with the same mark between, grouped from the left; a mark may stand before the first. -/
def marked (kind mark : String) (operand : Parser) : Parser :=
  thenGrowing (firstOf [rule kind [punct mark, operand], operand])
    (fun left => around kind "" left [punct mark, operand])

def unionType (g : Rules) (line : Bool) : Parser :=
  marked "union_type" "|" (marked "intersection_type" "&" (unaryType g line))

def typeTerm (g : Rules) (line : Bool) : Parser := fun c =>
  match unionType g line c with
  | some ([left], d) =>
    if line && d.breaksLine then some ([left], d)
    else
      firstOf [
        around "conditional_type" "left" left [word "extends", inField "right" (unionType g false), tok "?",
          inField "consequence" (g.sub (.typeTerm false)), tok ":", inField "alternative" (g.sub (.typeTerm line))],
        fun c => some ([left], c)] d
  | other => other

end TagAlias.Grammar
