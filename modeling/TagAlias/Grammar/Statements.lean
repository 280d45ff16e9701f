import TagAlias.Grammar.Expressions
/-!
# Statements

Declarations, control flow, imports, exports and namespaces.
-/
namespace TagAlias.Grammar

/-- What a statement may run to: expressions with commas between. -/
def expressions (g : Rules) : Parser := sequence g .statement

def condition (g : Rules) : Parser :=
  rule "parenthesized_expression" [tok "(", sequence g .bracket, tok ")"]

/-! ## Lists of statements -/

def comment : Parser := fun c =>
  let c := c.skipBlanks
  match commentLength c.rest with
  | some n => taking "comment" true n c
  | none =>
    match markupCommentLength c.rest with
    | some n => taking "html_comment" true n c
    | none => none

def statements (g : Rules) : Parser := many (firstOf [comment, g.sub .statement])

def block (g : Rules) : Parser := rule "statement_block" [tok "\x7b", statements g, tok "\x7d"]

/-! ## Variables -/

def declarator (g : Rules) (e : Ending) : Parser :=
  rule "variable_declarator" [
    inField "name" (bindingTarget g),
    g.whenTyped (inOrder [optional (inOrder [punct "!", ahead (·.peek == some ':')]),
      inField "type" (optional (typeMark g e.line))]) nothing,
    optional (initialValue g e)]

/-- The end of a declaration: its last part is an operand if the last variable has a value. -/
def declarationEnd (g : Rules) (ns : List Node) : Parser :=
  endAfter g (match ns.getLast? with
    | some n => n.children.any (fun m => m.field == "value")
    | none => false)

/-- Keyword and variables, and then `finish` from what was read. -/
def declaring (kind : String) (keyword : Parser) (names : Parser) (finish : List Node → Parser) : Parser := fun c =>
  let c := c.skip
  match inOrder [keyword, names] c with
  | none => none
  | some (ns, d) =>
    match finish ns d with
    | none => none
    | some (ms, e) => some ([.mk ⟨kind, c.offset, e.offset, "", true, false⟩ (ns ++ ms)], e)

def variableDeclaration (g : Rules) (e : Ending) (finish : List Node → Parser) : Parser :=
  declaring "variable_declaration" (word "var") (separated "," (declarator g e)) finish

def lexicalDeclaration (g : Rules) (e : Ending) (finish : List Node → Parser) : Parser :=
  declaring "lexical_declaration" (inField "kind" (firstOf [word "let", word "const"]))
    (separated "," (declarator g e)) finish

/-! ## Functions -/

def functionDeclaration (g : Rules) : Parser := fun c =>
  let head (marks : List Parser) : List Parser :=
    [optional (word "async"), word "function"] ++ marks ++ [inField "name" (identifier g), callSignature g true]
  firstOf [
    rule "generator_function_declaration" (head [tok "*"] ++ [inField "body" (g.sub .block)]),
    rule "function_declaration" (head [] ++ [inField "body" (g.sub .block)]),
    g.whenTyped (rule "function_signature" (head [] ++ [endAfter g false])) failing] c

/-! ## Types, enumerations and namespaces -/

def interfaceDeclaration (g : Rules) : Parser :=
  rule "interface_declaration" [word "interface", inField "name" (typeIdentifier g),
    inField "type_parameters" (optional (typeParameters g)),
    optional (rule "extends_type_clause" [word "extends", separated "," (inField "type" (namedType g))]),
    inField "body" (objectType g "interface_body")]

def typeAlias (g : Rules) : Parser :=
  rule "type_alias_declaration" [word "type", inField "name" (typeIdentifier g),
    inField "type_parameters" (optional (typeParameters g)), punct "=", inField "value" (g.sub (.typeTerm true)),
    endAfter g false]

def enumDeclaration (g : Rules) : Parser :=
  rule "enum_declaration" [optional (word "const"), word "enum", inField "name" (identifier g),
    inField "body" (rule "enum_body" [tok "\x7b",
      listed "," (firstOf [
        rule "enum_assignment" [inField "name" (propertyName g), initialValue g .bracket],
        inField "name" (propertyName g)]),
      tok "\x7d"])]

def dottedName (g : Rules) : Parser :=
  thenGrowing (identifier g) (fun left =>
    around "nested_identifier" "object" left [punct ".", inField "property" (nameOf "property_identifier" (fun _ => true))])

def namespaceTail (g : Rules) : List Parser :=
  [inField "name" (firstOf [string, dottedName g]), inField "body" (optional (g.sub .block))]

def namespaceDeclaration (g : Rules) : Parser := rule "internal_module" (word "namespace" :: namespaceTail g)

def moduleDeclaration (g : Rules) : Parser := rule "module" (word "module" :: namespaceTail g)

def importAlias (g : Rules) : Parser :=
  rule "import_alias" [word "import", identifier g, punct "=", dottedName g, endAfter g false]

/-! ## Declarations -/

def declaration (g : Rules) : Parser := fun c =>
  match c.nextName with
  | none => if c.skip.peek == some '@' then classDeclaration g c else none
  | some w =>
    let plain : List Parser :=
      match w with
      | "function" | "async" => [functionDeclaration g]
      | "class" => [classDeclaration g]
      | "var" => [variableDeclaration g .statement (declarationEnd g)]
      | "let" => [lexicalDeclaration g .statement (declarationEnd g)]
      | "const" => [g.whenTyped (enumDeclaration g) failing, lexicalDeclaration g .statement (declarationEnd g)]
      | _ => []
    let typed : List Parser :=
      match w with
      | "abstract" => [classDeclaration g]
      | "interface" => [interfaceDeclaration g]
      | "type" => [typeAlias g]
      | "enum" => [enumDeclaration g]
      | "namespace" => [namespaceDeclaration g]
      | "module" => [moduleDeclaration g]
      | "import" => [importAlias g]
      | "declare" => [ambient]
      | _ => []
    firstOf (if g.typed then plain ++ typed else plain) c
where
  ambient : Parser :=
    rule "ambient_declaration" [word "declare",
      firstOf [
        inOrder [word "global", g.sub .block],
        inOrder [word "module", punct ".", nameOf "property_identifier" (fun _ => true), tok ":",
          g.sub (.typeTerm true), endAfter g false],
        inOrder [ahead (fun c => match c.nextName with
          | some w => ["function", "async", "class", "var", "let", "const", "abstract", "interface", "type", "enum",
              "namespace", "module", "import"].contains w
          | none => c.peek == some '@'), g.sub .statement]]]

/-! ## Imports and exports -/

def exchangedName (g : Rules) : Parser :=
  firstOf [string, identifier g, nameOf "default" (· == "default")]

def typeMarker (g : Rules) : Parser :=
  g.whenTyped
    (optional (inOrder [firstOf [word "type", word "typeof"],
      ahead (fun c => c.name?.isSome || c.peek == some '\x7b' || c.peek == some '*' || c.peek == some '"' || c.peek == some '\'')]))
    nothing

def importSpecifier (g : Rules) : Parser :=
  let local_ := identifier g
  firstOf [
    rule "import_specifier" [typeMarker g,
      inField "name" (firstOf [string, nameOf "identifier" (fun _ => true)]), word "as", inField "alias" local_],
    rule "import_specifier" [typeMarker g, inField "name" local_],
    rule "import_specifier" [inField "name" (firstOf [string, nameOf "identifier" (fun _ => true)]), word "as",
      inField "alias" local_],
    rule "import_specifier" [inField "name" local_]]

def importClause (g : Rules) : Parser :=
  let namespaceImport := rule "namespace_import" [punct "*", word "as", identifier g]
  let namedImports := rule "named_imports" [tok "\x7b", listed "," (importSpecifier g), tok "\x7d"]
  rule "import_clause" [firstOf [namespaceImport, namedImports,
    inOrder [identifier g, optional (inOrder [tok ",", firstOf [namespaceImport, namedImports]])]]]

def fromClause : Parser := inOrder [word "from", inField "source" string]

def importAttribute (g : Rules) : Parser := optional (rule "import_attribute" [firstOf [word "with", word "assert"], object g])

def importStatement (g : Rules) : Parser :=
  let tail := inOrder [importAttribute g, endAfter g false]
  let required := rule "import_require_clause" [identifier g, punct "=", word "require", tok "(",
    inField "source" string, tok ")"]
  firstOf [
    rule "import_statement" [word "import", inField "source" string, tail],
    rule "import_statement" [word "import", importClause g, fromClause, tail],
    g.whenTyped (rule "import_statement" [word "import", firstOf [word "type", word "typeof"], importClause g, fromClause,
      tail]) failing,
    g.whenTyped (rule "import_statement" [word "import", optional (word "type"), required, tail]) failing]

def exportClause (g : Rules) : Parser :=
  rule "export_clause" [tok "\x7b",
    listed "," (firstOf [
      rule "export_specifier" [typeMarker g, inField "name" (exchangedName g),
        optional (inOrder [word "as", inField "alias" (exchangedName g)])],
      rule "export_specifier" [inField "name" (exchangedName g),
        optional (inOrder [word "as", inField "alias" (exchangedName g)])]]),
    tok "\x7d"]

def exportStatement (g : Rules) : Parser :=
  let tail := endAfter g false
  firstOf [
    rule "export_statement" [word "export", punct "*", fromClause, tail],
    rule "export_statement" [word "export",
      rule "namespace_export" [punct "*", word "as", exchangedName g], fromClause, tail],
    rule "export_statement" [word "export", exportClause g, optional fromClause, tail],
    g.whenTyped (rule "export_statement" [word "export", word "type", exportClause g, optional fromClause, tail]) failing,
    g.whenTyped (rule "export_statement" [word "export", punct "=", g.sub (.expression .statement), terminator g]) failing,
    g.whenTyped (rule "export_statement" [word "export", word "as", word "namespace", identifier g, tail]) failing,
    rule "export_statement" [decorators g, word "export", word "default", inField "declaration" (declaration g)],
    rule "export_statement" [decorators g, word "export", word "default",
      inField "value" (g.sub (.expression .statement)), terminator g],
    rule "export_statement" [decorators g, word "export", inField "declaration" (declaration g)]]

/-! ## Control flow -/

def ifStatement (g : Rules) : Parser :=
  rule "if_statement" [word "if", inField "condition" (condition g), inField "consequence" (g.sub .statement),
    inField "alternative" (optional (rule "else_clause" [word "else", g.sub .statement]))]

def switchStatement (g : Rules) : Parser :=
  let body := inField "body" (statements g)
  rule "switch_statement" [word "switch", inField "value" (condition g),
    inField "body" (rule "switch_body" [tok "\x7b",
      many (firstOf [
        rule "switch_case" [word "case", inField "value" (sequence g .bracket), tok ":", body],
        rule "switch_default" [word "default", tok ":", body]]),
      tok "\x7d"])]

def forInStatement (g : Rules) : Parser :=
  let target := inField "left" (bindingTarget g)
  rule "for_in_statement" [word "for", optional (word "await"), tok "(",
    firstOf [
      inOrder [inField "kind" (word "var"), target, optional (initialValue g .bracket), operator],
      inOrder [inField "kind" (firstOf [word "let", word "const"]), target, operator],
      inOrder [inField "left" (firstOf [destructuring g, place g, condition g]), operator]],
    inField "right" (sequence g .bracket), tok ")", inField "body" (g.sub .statement)]
where
  operator : Parser := inField "operator" (firstOf [word "in", word "of"])

def forStatement (g : Rules) : Parser :=
  let closing : List Node → Parser := fun _ => tok ";"
  let empty := rule "empty_statement" [tok ";"]
  rule "for_statement" [word "for", tok "(",
    firstOf [
      inField "initializer" (variableDeclaration g .bracket closing),
      inField "initializer" (lexicalDeclaration g .bracket closing),
      inOrder [inField "initializer" (sequence g .bracket), tok ";"],
      inField "initializer" empty],
    firstOf [
      inOrder [inField "condition" (sequence g .bracket), tok ";"],
      inField "condition" empty],
    inField "increment" (optional (sequence g .bracket)),
    tok ")", inField "body" (g.sub .statement)]

def tryStatement (g : Rules) : Parser :=
  rule "try_statement" [word "try", inField "body" (g.sub .block),
    inField "handler" (optional (rule "catch_clause" [word "catch",
      optional (inOrder [tok "(", inField "parameter" (bindingTarget g),
        inField "type" (g.whenTyped (optional (typeMark g false)) nothing), tok ")"]),
      inField "body" (g.sub .block)])),
    inField "finalizer" (optional (rule "finally_clause" [word "finally", inField "body" (g.sub .block)]))]

def jump (g : Rules) (kind keyword : String) : Parser :=
  rule kind [word keyword,
    fun c => if c.breaksLine then nothing c
      else optional (inField "label" (nameOf "statement_identifier" (isBindingName g))) c,
    endAfter g false]

def returnStatement (g : Rules) : Parser := fun c =>
  let bare := rule "return_statement" [word "return", endAfter g false]
  let valued := rule "return_statement" [word "return",
    fun d => if Ending.statement.stopsAt g d then none else expressions g d, terminator g]
  firstOf [valued, bare] c

def keywordStatement (g : Rules) (w : String) : List Parser :=
  match w with
  | "export" => [exportStatement g]
  | "import" => [importStatement g]
  | "if" => [ifStatement g]
  | "switch" => [switchStatement g]
  | "for" => [forInStatement g, forStatement g]
  | "while" => [rule "while_statement" [word "while", inField "condition" (condition g), inField "body" (g.sub .statement)]]
  | "do" => [rule "do_statement" [word "do", inField "body" (g.sub .statement), word "while",
      inField "condition" (condition g), optional (terminator g)]]
  | "try" => [tryStatement g]
  | "with" => [rule "with_statement" [word "with", inField "object" (condition g), inField "body" (g.sub .statement)]]
  | "break" => [jump g "break_statement" "break"]
  | "continue" => [jump g "continue_statement" "continue"]
  | "debugger" => [rule "debugger_statement" [word "debugger", endAfter g false]]
  | "return" => [returnStatement g]
  | "throw" => [rule "throw_statement" [word "throw", expressions g, terminator g]]
  | "namespace" => [g.whenTyped (rule "expression_statement" [namespaceDeclaration g, terminator g]) failing]
  | _ => []

def labeledStatement (g : Rules) : Parser :=
  rule "labeled_statement" [inField "label" (nameOf "statement_identifier" (isOperandName g)), tok ":",
    inField "body" (g.sub .statement)]

def expressionStatement (g : Rules) : Parser := rule "expression_statement" [expressions g, terminator g]

def statement (g : Rules) : Parser := fun c =>
  let c := skipToOperand (c.rest.length + 1) c
  match c.peek with
  | none => none
  | some d =>
    if d == '\x7b' then block g c
    else if d == ';' then rule "empty_statement" [tok ";"] c
    else if d == '@' then firstOf [exportStatement g, classDeclaration g, expressionStatement g] c
    else
      match c.nextName with
      | none => expressionStatement g c
      | some w =>
        firstOf (keywordStatement g w ++ [declaration g]
          ++ (if g.typed && statementWords.contains w then [] else [labeledStatement g, expressionStatement g])) c

end TagAlias.Grammar
