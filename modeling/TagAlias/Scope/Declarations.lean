import TagAlias.Syntax.Binding
/-!
# What a node declares, and the scope it opens

A declaration made at a node goes to one of three places: the scope around the node, the nearest function or program
around it, or the scope that the node itself opens.  Types declare no values and are not here.
-/
namespace TagAlias.Scope

/-! ## Kinds of nodes -/

def functionKinds : List String :=
  ["function_declaration", "generator_function_declaration", "function_expression", "function", "generator_function",
    "arrow_function", "method_definition", "function_signature", "class_static_block"]

/-- Functions whose name is declared around them. -/
def declaredFunctionKinds : List String :=
  ["function_declaration", "generator_function_declaration", "function_signature"]

/-- Functions whose name is known inside them only. -/
def namedFunctionKinds : List String := ["function_expression", "function", "generator_function"]

def classDeclarationKinds : List String := ["class_declaration", "abstract_class_declaration"]

def blockKinds : List String :=
  ["statement_block", "for_statement", "for_in_statement", "catch_clause", "switch_body"]

/-- The kind of scope that a node opens.  The body of a function opens none: it shares the scope of its function. -/
def opens (isBody : Bool) (n : Node) : Option String :=
  if functionKinds.contains n.kind then some "function"
  else if n.kind == "class" then (n.child? "name").map (fun _ => "class")
  else if blockKinds.contains n.kind && !isBody then some "block"
  else none

/-! ## Declarations -/

/-- How far a declaration made at a node reaches. -/
inductive Reach where
  /-- To the scope that the node opens. -/
  | own
  /-- To the innermost scope around the node. -/
  | around
  /-- To the innermost function or program around the node. -/
  | variable_
  deriving DecidableEq, Repr

structure Declaration where
  reach : Reach
  name : String
  kind : String
  deriving DecidableEq, Repr

/-- The names of the nodes, declared alike. -/
def declareNames (src : Bytes) (reach : Reach) (kind : String) (ns : List Node) :
    Except Utf8.Fault (List Declaration) :=
  ns.mapM (fun n => (n.text src).map (⟨reach, ·, kind⟩))

def importedNames (n : Node) : List Node :=
  n.namedChildren.flatMap (fun clause =>
    if clause.kind == "import_require_clause" then clause.namedChildren.filter (·.kind == "identifier")
    else if clause.kind == "import_clause" then clause.namedChildren.flatMap fromPart
    else [])
where
  fromPart (part : Node) : List Node :=
    if part.kind == "identifier" then [part]
    else if part.kind == "namespace_import" then part.namedChildren.filter (·.kind == "identifier")
    else if part.kind == "named_imports" then
      (part.namedChildren.filter (·.kind == "import_specifier")).filterMap (fun s =>
        match (s.child? "alias").or (s.child? "name") with
        | some l => if l.kind == "identifier" then some l else none
        | none => none)
    else []

/-- The head of a loop over a collection: without a keyword it assigns to something declared elsewhere. -/
def loopHead (src : Bytes) (n : Node) : Except Utf8.Fault (List Declaration) :=
  match n.child? "kind" with
  | none => .ok []
  | some k => do
    let names ← (((n.child? "left").map Node.bindingLeaves).getD []).mapM (·.text src)
    let keyword ← k.text src
    return names.map (⟨if keyword == "var" then .variable_ else .own, ·, keyword⟩)

def declarations (src : Bytes) (isBody : Bool) (n : Node) : Except Utf8.Fault (List Declaration) :=
  let named (reach : Reach) (kind : String) := declareNames src reach kind (n.child? "name").toList
  let bound (reach : Reach) (kind : String) (m : Option Node) :=
    declareNames src reach kind ((m.map Node.bindingLeaves).getD [])
  if functionKinds.contains n.kind then do
    let name ←
      if declaredFunctionKinds.contains n.kind then named .around "function"
      else if namedFunctionKinds.contains n.kind then named .own "local"
      else .ok []
    let many ← declareNames src .own "param"
      (((n.child? "parameters").map (·.namedChildren.flatMap Node.bindingLeaves)).getD [])
    let single ← bound .own "param" (n.child? "parameter")
    return name ++ many ++ single
  else if classDeclarationKinds.contains n.kind then named .around "class"
  else if n.kind == "class" then named .own "local"
  else if blockKinds.contains n.kind then
    if isBody then .ok []
    else if n.kind == "for_in_statement" then loopHead src n
    else if n.kind == "catch_clause" then bound .own "param" (n.child? "parameter")
    else .ok []
  else if n.kind == "variable_declaration" then
    declareNames src .variable_ "var" (n.namedChildren.flatMap Node.bindingLeaves)
  else if n.kind == "lexical_declaration" then do
    let keyword ← match n.child? "kind" with
      | some k => k.text src
      | none => .ok "let"
    declareNames src .around keyword (n.namedChildren.flatMap Node.bindingLeaves)
  else if n.kind == "import_statement" then declareNames src .around "module" (importedNames n)
  else if n.kind == "import_alias" then
    declareNames src .around "module" (n.namedChildren.find? (·.kind == "identifier")).toList
  else if n.kind == "enum_declaration" then named .around "enum"
  else if n.kind == "internal_module" || n.kind == "module" then
    match n.child? "name" with
    | some m => if m.kind == "identifier" then named .around "namespace" else .ok []
    | none => .ok []
  else .ok []

end TagAlias.Scope
