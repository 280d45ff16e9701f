import TagAlias.Grammar.Members
/-!
# Markup

Elements, their tags, attributes and children.  The text between tags is taken as it stands, unless it is blank and
breaks the line; a name in a tag may hold hyphens after its first character.
-/
namespace TagAlias.Grammar

/-! ## Names -/

def hyphenatedLength (cs : List Char) : Option Nat :=
  let isWord (c : Char) : Bool := c.isAlpha || c == '_' || c == '$'
  match cs with
  | c :: _ =>
    if isWord c then
      let n := (cs.takeWhile (fun d => isWord d || d.isDigit)).length
      if (cs.drop n).head? == some '-' then
        some (n + ((cs.drop n).takeWhile (fun d => isWord d || d.isDigit || d == '-')).length)
      else none
    else none
  | [] => none

def isTagName (g : Rules) (w : String) : Bool := g.typed || !reservedWords.contains w

def markupName (g : Rules) (kind : String) : Parser := fun c =>
  let c := c.skip
  match hyphenatedLength c.rest with
  | some n => taking kind true n c
  | none => nameOf kind (isTagName g) c

def isHyphenated (c : Cursor) : Bool := (hyphenatedLength c.rest).isSome

def spacedName (g : Rules) : Parser :=
  rule "jsx_namespace_name" [markupName g "identifier", tok ":", markupName g "identifier"]

/-- A name, and members reached from it. -/
def memberName (g : Rules) : Parser :=
  inOrder [
    ahead (!isHyphenated ·),
    thenGrowing (nameOf "identifier" (isTagName g)) (fun left =>
      around "member_expression" "object" left [punct ".", inField "property" (nameOf "property_identifier" (fun _ => true))])]

def elementName (g : Rules) : Parser :=
  firstOf [
    inField "name" (spacedName g),
    inOrder [inField "name" (memberName g),
      inField "type_arguments" (g.whenTyped (optional (typeArguments g)) nothing)],
    inField "name" (markupName g "identifier")]

/-! ## Attributes -/

def referenceLength (cs : List Char) : Option Nat :=
  let bounded (test : Char → Bool) (most skip : Nat) : Option Nat :=
    let n := ((cs.drop skip).takeWhile test).length
    if 1 ≤ n && n ≤ most && (cs.drop (skip + n)).head? == some ';' then some (skip + n + 1) else none
  match cs with
  | '&' :: '#' :: d :: _ => if d == 'x' || d == 'X' then bounded isHex 6 3 else bounded Char.isDigit 5 2
  | '&' :: _ => bounded Char.isAlpha 30 1
  | _ => none

def characterReference : Parser := fun c =>
  match referenceLength c.rest with
  | some n => taking "html_character_reference" true n c
  | none => none

/-- A string in a tag: it may run over lines and knows no escapes. -/
def attributeString (q : Char) : Parser :=
  let quote := String.ofList [q]
  let fragment : Parser := fun c =>
    match c.rest with
    | '&' :: _ => taking "string_fragment" true 1 c
    | _ =>
      match (c.rest.takeWhile (fun d => d != q && d != '&')).length with
      | 0 => none
      | n => taking "string_fragment" true n c
  rule "string" [tok quote, many (firstOf [characterReference, fragment]), tight quote]

def sequence (g : Rules) (e : Ending) : Parser := fun c =>
  match g.sub (.expression e) c with
  | some ([first], d) =>
    if d.skip.peek == some ',' then
      around "sequence_expression" "" first [many (inOrder [tok ",", g.sub (.expression e)])] d
    else some ([first], d)
  | other => other

/-- Braces in markup: an expression, a spread, or nothing but comments. -/
def embedded (g : Rules) : Parser :=
  rule "jsx_expression" [tok "\x7b",
    optional (firstOf [rule "spread_element" [tok "...", g.inner], sequence g .bracket]), tok "\x7d"]

def markupAttribute (g : Rules) : Parser :=
  firstOf [
    rule "jsx_attribute" [
      firstOf [spacedName g, markupName g "property_identifier"],
      optional (inOrder [punct "=",
        firstOf [attributeString '\'', attributeString '"', embedded g, g.sub .element]])],
    embedded g]

/-! ## Elements -/

/-- Number of characters of the text up to the next mark. -/
def textLength (cs : List Char) : Nat :=
  (cs.takeWhile (fun c => c != '<' && c != '>' && c != '\x7b' && c != '\x7d' && c != '&')).length

/-- Whether some of the characters are more than a line break and the blanks after it. -/
def holdsText : Bool → List Char → Bool
  | _, [] => false
  | afterBreak, c :: r =>
    if c == '\n' then holdsText true r
    else if afterBreak && isSpace c then holdsText true r
    else true

def markupText : Parser := fun c =>
  let n := textLength c.rest
  if holdsText false (c.rest.take n) then taking "jsx_text" true n c else none

def child (g : Rules) : Parser :=
  firstOf [
    markupText,
    characterReference,
    inOrder [ahead (fun c => !"</".toList.isPrefixOf c.rest), g.sub .element],
    embedded g]

def closingTag (g : Rules) : Parser :=
  rule "jsx_closing_element" [tok "</",
    inField "name" (optional (firstOf [spacedName g, memberName g, markupName g "identifier"])), tok ">"]

/-- A tag that opens an element with children, or is one by itself. -/
def element (g : Rules) : Parser := fun c =>
  let c := c.skip
  let head := inOrder [tok "<", optional (inOrder [elementName g, many (inField "attribute" (markupAttribute g))])]
  match head c with
  | none => none
  | some (ns, d) =>
    match ns, tok "/>" d with
    | _ :: _ :: _, some (close, e) =>
      some ([.mk ⟨"jsx_self_closing_element", c.offset, e.offset, "", true, false⟩ (ns ++ close)], e)
    | _, _ =>
      match tok ">" d with
      | none => none
      | some (close, e) =>
        let opening := .mk ⟨"jsx_opening_element", c.offset, e.offset, "", true, false⟩ (ns ++ close)
        around "jsx_element" "open_tag" opening [many (child g), inField "close_tag" (closingTag g)] e

end TagAlias.Grammar
