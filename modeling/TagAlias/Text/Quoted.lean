import TagAlias.Text.CodePoint
import TagAlias.Text.Printable
/-!
# Quoted text

Text between quotes, as messages show values.  The quote is the single one, unless the text holds single quotes and no
double one.  What cannot be printed is escaped by its number, in the shortest of three widths.
-/
namespace TagAlias.Text

def hexDigits : Nat → Nat → List Char
  | 0, _ => []
  | w + 1, n => hexDigits w (n / 16) ++ [Nat.digitChar (n % 16)]

def escapeChar (quote c : Char) : List Char :=
  if c == quote || c == '\\' then ['\\', c]
  else if c == '\t' then ['\\', 't']
  else if c == '\n' then ['\\', 'n']
  else if c == '\r' then ['\\', 'r']
  else if isPrintable c then [c]
  else if c.toNat < 0x100 then '\\' :: 'x' :: hexDigits 2 c.toNat
  else if c.toNat < 0x10000 then '\\' :: 'u' :: hexDigits 4 c.toNat
  else '\\' :: 'U' :: hexDigits 8 c.toNat

def escapePoint (quote : Char) : CodePoint → List Char
  | .char c => escapeChar quote c
  | .half n => '\\' :: 'u' :: hexDigits 4 (0xD800 + n)

def quoteFor (s : Str) : Char := if s.contains '\'' && !s.contains '"' then '"' else '\''

/-- A text of code points between quotes, where only characters are left. -/
def quotedPoints (s : Str) : String :=
  let q := quoteFor s
  String.ofList (q :: s.flatMap (escapePoint q) ++ [q])

def quoted (s : String) : String := quotedPoints s

/-- Values in brackets with commas between. -/
def bracketed (items : List String) : String := "[" ++ ", ".intercalate items ++ "]"

end TagAlias.Text
