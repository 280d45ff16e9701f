import TagAlias.Grammar.Statements
/-!
# Programs

The knot that ties the rules of the grammar together, and the parser for a whole text.
-/
namespace TagAlias.Grammar

/-- The rule for a goal, given the rules for all goals. -/
def step (g : Rules) : Goal → Parser
  | .statement => statement g
  | .block => block g
  | .expression e => expression g e
  | .operand e level => operand g e level
  | .unary e => unary g e
  | .newTarget => newTarget g
  | .pattern => pattern g
  | .typeTerm line => typeTerm g line
  | .primaryType line => primaryType g line
  | .element => element g

/-- The parser for a goal, for nestings of goals up to the given depth. -/
def parseGoal (d : Dialect) : Nat → Goal → Parser
  | 0, _ => failing
  | n + 1, goal => step ⟨d, parseGoal d n⟩ goal

/-- No nesting is deeper: between two characters a goal is entered at most once at each level of the grammar. -/
def depthFor (length : Nat) : Nat := 16 * (length + 2)

def hashBang : Parser := fun c =>
  let c := c.skipBlanks
  match c.rest with
  | '#' :: '!' :: r => taking "hash_bang_line" true (2 + (r.takeWhile (· != '\n')).length) c
  | _ => none

/-- The tree of a text, if the dialect's grammar accepts it as a whole. -/
def parse (d : Dialect) (text : List Char) : Option Node :=
  let g : Rules := ⟨d, parseGoal d (depthFor text.length)⟩
  match rule "program" [optional hashBang, statements g] ⟨text, 0⟩ with
  | some ([root], c) => if c.skip.rest.isEmpty then some root else none
  | _ => none

end TagAlias.Grammar
