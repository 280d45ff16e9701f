import TagAlias.Text.Quoted
/-!
# Faults in TOML texts

A fault has a cause and a place.  The place is kept as the number of characters from there to the end of the text, and
told as a line and a column.
-/
namespace TagAlias.Toml

inductive Cause where
  | statement
  | afterStatement
  | tableEnd
  | itemEnd
  | equalsSign
  | keyPart
  | value
  | date
  | array
  | inlineTable
  /-- A string or comment that does not end as it should. -/
  | expected (stop : String)
  | found (c : Char)
  | illegal (c : Char)
  | unterminated
  | escape
  | hexadecimal
  | noScalar
  | overwritten
  | declaredTwice (key : List String)
  | immutable (key : List String)
  | redefined (key : List String)
  | duplicate (name : String)
  /-- An integer of more digits than any may have. -/
  | tooLong
  deriving DecidableEq, Repr

def quotedKey (k : List String) : String :=
  match k with
  | [name] => "(" ++ Text.quoted name ++ ",)"
  | _ => "(" ++ ", ".intercalate (k.map Text.quoted) ++ ")"

def quotedChar (c : Char) : String := Text.quoted (String.ofList [c])

def Cause.message : Cause → String
  | statement => "Invalid statement"
  | afterStatement => "Expected newline or end of document after a statement"
  | tableEnd => "Expected ']' at the end of a table declaration"
  | itemEnd => "Expected ']]' at the end of an array declaration"
  | equalsSign => "Expected '=' after a key in a key/value pair"
  | keyPart => "Invalid initial character for a key part"
  | value => "Invalid value"
  | date => "Invalid date or datetime"
  | array => "Unclosed array"
  | inlineTable => "Unclosed inline table"
  | expected stop => "Expected " ++ Text.quoted stop
  | found c => "Found invalid character " ++ quotedChar c
  | illegal c => "Illegal character " ++ quotedChar c
  | unterminated => "Unterminated string"
  | escape => "Unescaped '\\' in a string"
  | hexadecimal => "Invalid hex value"
  | noScalar => "Escaped character is not a Unicode scalar value"
  | overwritten => "Cannot overwrite a value"
  | declaredTwice k => "Cannot declare " ++ quotedKey k ++ " twice"
  | immutable k => "Cannot mutate immutable namespace " ++ quotedKey k
  | redefined k => "Cannot redefine namespace " ++ quotedKey k
  | duplicate name => "Duplicate inline table key " ++ Text.quoted name
  | tooLong => "The integer has too many digits"

structure Fault where
  cause : Cause
  /-- How many characters are left from the place on. -/
  left : Nat
  deriving DecidableEq, Repr

namespace Fault

def place (f : Fault) (text : List Char) : String :=
  if f.left == 0 then "end of document"
  else
    let before := text.take (text.length - f.left)
    let column := (before.reverse.takeWhile (· != '\n')).length + 1
    "line " ++ toString (before.count '\n' + 1) ++ ", column " ++ toString column

def message (f : Fault) (text : List Char) : String := f.cause.message ++ " (at " ++ f.place text ++ ")"

end Fault

end TagAlias.Toml
