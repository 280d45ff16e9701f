import TagAlias.Grammar.Types
/-!
# Members of objects and classes

Object literals and class bodies, whose members share the rules for methods.
-/
namespace TagAlias.Grammar

def methodModifiers (g : Rules) : Parser :=
  many (firstOf [
    modifier (firstOf [
      g.whenTyped (firstOf [accessibility, overriding, word "readonly"]) failing,
      word "static", word "async", word "get", word "set"]),
    punct "*"])

def methodDefinition (g : Rules) : Parser :=
  rule "method_definition" [
    g.whenTyped nothing (decorators g),
    methodModifiers g, inField "name" (propertyName g), g.whenTyped (optional (tok "?")) nothing,
    callSignature g true, inField "body" (g.sub .block)]

/-! ## Object literals -/

def object (g : Rules) : Parser :=
  rule "object" [tok "\x7b",
    withHoles (firstOf [
      rule "spread_element" [tok "...", g.inner],
      rule "pair" [inField "key" (propertyName g), tok ":", inField "value" g.inner],
      methodDefinition g,
      nameOf "shorthand_property_identifier" (isOperandName g)]),
    tok "\x7d"]

/-! ## Class bodies -/

/-- A signature without a body: an overload, an optional or an abstract method. -/
def methodSignature (g : Rules) : Parser := fun c =>
  let modifiers := many (firstOf [modifier (firstOf [accessibility, overriding, word "static", word "readonly",
    word "abstract", word "async", word "get", word "set"]), punct "*"])
  match inOrder [modifiers, inField "name" (propertyName g), optional (tok "?"), callSignature g true] c with
  | some (ns, _) =>
    rule (if ns.any (·.kind == "abstract") then "abstract_method_signature" else "method_signature")
      [modifiers, inField "name" (propertyName g), optional (tok "?"), callSignature g true] c
  | none => none

/-- A field.  The value or the type is the last part, if there is one. -/
def field (g : Rules) : Parser :=
  g.whenTyped
    (rule "public_field_definition" [
      decorators g,
      many (modifier (firstOf [accessibility, overriding, word "declare", word "static", word "readonly", word "abstract",
        word "accessor"])),
      inField "name" (propertyName g), optional (firstOf [tok "?", tok "!"]),
      inField "type" (optional (typeMark g true)), optional (initialValue g .statement)])
    (rule "field_definition" [
      decorators g, optional (modifier (word "static")), inField "property" (propertyName g),
      optional (initialValue g .statement)])

def memberEnd (g : Rules) (operand : Bool) : Parser := firstOf [g.whenTyped (tok ",") failing, endAfter g operand]

/-- A member whose end depends on whether its last part is an operand. -/
def ended (g : Rules) (p : Parser) : Parser := fun c =>
  match p c with
  | some (ns, d) =>
    let operand := ns.any (fun n => n.children.any (·.field == "value"))
    match memberEnd g operand d with
    | some (ms, e) => some (ns ++ ms, e)
    | none => none
  | none => none

/-- Comments stand between the members as nodes of their own. -/
def commentNode : Parser := fun c =>
  let c := c.skipBlanks
  match commentLength c.rest with
  | some n => taking "comment" true n c
  | none => none

def classMember (g : Rules) : Parser :=
  firstOf [
    commentNode,
    rule "class_static_block" [word "static", inField "body" (g.sub .block)],
    inOrder [g.whenTyped (decorators g) nothing, methodDefinition g, optional (tok ";")],
    inOrder [g.whenTyped (inOrder [decorators g, methodSignature g, memberEnd g false]) failing],
    g.whenTyped (inOrder [indexSignature g true, memberEnd g false]) failing,
    ended g (field g),
    tok ";"]

def classBody (g : Rules) : Parser := rule "class_body" [tok "\x7b", many (classMember g), tok "\x7d"]

/-! ## Classes -/

def heritage (g : Rules) : Parser :=
  let base := inField "value" (g.sub (.operand .bracket 20))
  let clause := rule "extends_clause" [word "extends",
    separated "," (inOrder [base, inField "type_arguments" (optional (typeArguments g))])]
  let promises := rule "implements_clause" [word "implements", separated "," (g.sub (.typeTerm false))]
  g.whenTyped
    (rule "class_heritage" [firstOf [inOrder [clause, optional promises], promises]])
    (rule "class_heritage" [word "extends", g.sub (.operand .bracket 20)])

def classTail (g : Rules) : Parser :=
  inOrder [
    inField "type_parameters" (g.whenTyped (optional (typeParameters g)) nothing),
    optional (heritage g), inField "body" (classBody g)]

/-- The name of a class, which is no word that could go on without a name. -/
def className (g : Rules) : Parser :=
  inField "name" (nameOf (if g.typed then "type_identifier" else "identifier")
    (fun w => isBindingName g w && w != "extends" && w != "implements"))

def classExpression (g : Rules) : Parser :=
  rule "class" [decorators g, word "class", optional (className g), classTail g]

def classDeclaration (g : Rules) : Parser :=
  firstOf [
    rule "class_declaration" [decorators g, word "class", className g, classTail g],
    g.whenTyped
      (rule "abstract_class_declaration" [decorators g, word "abstract", word "class", className g, classTail g])
      failing]

end TagAlias.Grammar
