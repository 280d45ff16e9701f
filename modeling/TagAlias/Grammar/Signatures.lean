import TagAlias.Grammar.Literals
/-!
# Patterns, parameters and signatures

The binding positions: what may stand left of an assignment, between the parentheses of a function, and the type
parameters and the result type around these.
-/
namespace TagAlias.Grammar

/-! ## Property names -/

def computedName (g : Rules) : Parser := rule "computed_property_name" [tok "[", g.inner, tok "]"]

def privateName : Parser := fun c =>
  let c := c.skip
  match c.rest with
  | '#' :: _ =>
    match (c.forward 1).name? with
    | some (_, n) => taking "private_property_identifier" true (n + 1) c
    | none => none
  | _ => none

/-- The name of a member of an object or a class: any word is one. -/
def propertyName (g : Rules) : Parser :=
  firstOf [nameOf "property_identifier" (fun _ => true), privateName, string, number, computedName g]

/-! ## Patterns -/

/-- The value that a binding takes when it is given none. -/
def initialValue (g : Rules) (e : Ending) : Parser :=
  inOrder [punct "=", inField "value" (g.sub (.expression e))]

/-- A binding, and the default that may follow it: then both make up a node of the given kind. -/
def withDefault (g : Rules) (kind : String) (left : Parser) : Parser := fun c =>
  match left c with
  | some ([n], d) =>
    firstOf [around kind "left" n [punct "=", inField "right" g.inner], fun d => some ([n], d)] d
  | other => other

def shorthand (g : Rules) : Parser := nameOf "shorthand_property_identifier_pattern" (isBindingName g)

def restPattern (g : Rules) : Parser := rule "rest_pattern" [tok "...", g.sub .pattern]

def objectPattern (g : Rules) : Parser :=
  rule "object_pattern" [tok "\x7b",
    withHoles (firstOf [
      restPattern g,
      rule "pair_pattern" [inField "key" (propertyName g), tok ":",
        inField "value" (withDefault g "assignment_pattern" (g.sub .pattern))],
      withDefault g "object_assignment_pattern" (shorthand g)]),
    tok "\x7d"]

def arrayPattern (g : Rules) : Parser :=
  rule "array_pattern" [tok "[",
    withHoles (withDefault g "assignment_pattern" (g.sub .pattern)),
    tok "]"]

def destructuring (g : Rules) : Parser := firstOf [objectPattern g, arrayPattern g]

/-- A place that can be assigned to: a name and the members reached from it. -/
def place (g : Rules) : Parser :=
  thenGrowing
    (firstOf [nameOf "identifier" (isOperandName g), rule "this" [word "this"]])
    (fun left => firstOf [
      around "member_expression" "object" left [punct ".", inField "property" (nameOf "property_identifier" (fun _ => true))],
      around "member_expression" "object" left [punct ".", inField "property" privateName],
      around "subscript_expression" "object" left [tok "[", inField "index" g.inner, tok "]"]])

def pattern (g : Rules) : Parser := firstOf [destructuring g, restPattern g, place g]

def bindingTarget (g : Rules) : Parser := firstOf [destructuring g, identifier g]

/-! ## Types beside names -/

def typeArguments (g : Rules) : Parser :=
  rule "type_arguments" [tok "<", separated "," (g.sub (.typeTerm false)), optional (tok ","), tok ">"]

def typeParameters (g : Rules) : Parser :=
  rule "type_parameters" [tok "<",
    separated "," (rule "type_parameter" [
      optional (inOrder [ahead (fun c => (c.name?.bind (fun n => (c.forward n.2).nextName)).isSome), word "const"]),
      inField "name" (typeIdentifier g),
      inField "constraint" (optional (rule "constraint" [word "extends", g.sub (.typeTerm false)])),
      inField "value" (optional (rule "default_type" [punct "=", g.sub (.typeTerm false)]))]),
    optional (tok ","), tok ">"]

def typeMark (g : Rules) (line : Bool) : Parser := rule "type_annotation" [tok ":", g.sub (.typeTerm line)]

def typePredicate (g : Rules) (line : Bool) : Parser :=
  rule "type_predicate" [
    inField "name" (firstOf [rule "this" [word "this"], identifier g]),
    word "is", inField "type" (g.sub (.typeTerm line))]

def assertion (g : Rules) (line : Bool) : Parser :=
  rule "asserts" [word "asserts", firstOf [typePredicate g line, rule "this" [word "this"], identifier g]]

def resultMark (g : Rules) (line : Bool) : Parser :=
  firstOf [
    rule "asserts_annotation" [tok ":", assertion g line],
    rule "type_predicate_annotation" [tok ":", typePredicate g line],
    typeMark g line]

/-! ## Decorators -/

def arguments (g : Rules) : Parser :=
  rule "arguments" [tok "(",
    withHoles (firstOf [rule "spread_element" [tok "...", g.inner], g.inner]),
    tok ")"]

def decorator (g : Rules) : Parser :=
  rule "decorator" [tok "@",
    firstOf [
      rule "parenthesized_expression" [tok "(", g.inner, tok ")"],
      thenGrowing (nameOf "identifier" (isBindingName g)) (fun left => firstOf [
        around "member_expression" "object" left [punct ".", inField "property" (nameOf "property_identifier" (fun _ => true))],
        around "call_expression" "function" left [
          inField "type_arguments" (g.whenTyped (optional (typeArguments g)) nothing),
          inField "arguments" (arguments g)]])]]

def decorators (g : Rules) : Parser := many (inField "decorator" (decorator g))

/-! ## Parameters -/

/-- A word that stands before a name: it is a name itself if nothing that can be one follows. -/
def modifier (p : Parser) : Parser := fun c =>
  match p c with
  | some (ns, d) =>
    match d.skip.peek with
    | some e => if "(<:;,=?!)\x7d".toList.contains e then none else some (ns, d)
    | none => none
  | none => none

def accessibility : Parser :=
  rule "accessibility_modifier" [firstOf [word "public", word "private", word "protected"]]

def overriding : Parser := rule "override_modifier" [word "override"]

def typedParameter (g : Rules) : Parser := fun c =>
  let head := inOrder [decorators g, many (modifier (firstOf [accessibility, overriding, word "readonly"])),
    inField "pattern" (firstOf [nodeThis, g.sub .pattern])]
  let tail := inOrder [inField "type" (optional (typeMark g false)), optional (initialValue g .bracket)]
  let c := c.skip
  match inOrder [head, optional (tok "?"), tail] c with
  | none => none
  | some (ns, d) =>
    let kind := if ns.any (·.kind == "?") then "optional_parameter" else "required_parameter"
    some ([.mk ⟨kind, c.offset, d.offset, "", true, false⟩ ns], d)
where
  nodeThis : Parser := inOrder [ahead (atWord ["this"]), rule "this" [word "this"]]

def parameter (g : Rules) : Parser :=
  g.whenTyped (typedParameter g) (withDefault g "assignment_pattern" (g.sub .pattern))

def formalParameters (g : Rules) : Parser :=
  rule "formal_parameters" [tok "(", listed "," (parameter g), tok ")"]

/-- Type parameters, parameters and result type, as the dialect has them. -/
def callSignature (g : Rules) (line : Bool) : Parser :=
  g.whenTyped
    (inOrder [inField "type_parameters" (optional (typeParameters g)), inField "parameters" (formalParameters g),
      inField "return_type" (optional (resultMark g line))])
    (inField "parameters" (formalParameters g))

end TagAlias.Grammar
