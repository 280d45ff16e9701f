import TagAlias.Alias.Transform
import TagAlias.Proofs.Grammar.Names
/-!
# The declaration of an alias as a program

A name in a tag may hold hyphens, and is taken as a whole; a declaration reads the same name only up to the first hyphen.
So `const`, a hyphenated name and whatever follows begin no statement, and the declaration of an alias for a tag with such a
name is a program in no dialect (`parse_declaration_hyphenated`).  Of every other component name it is one in all dialects
(`parse_declaration_plain`).  Both follow from what the rules that such a text enters do at each of its tokens.
-/
namespace TagAlias
namespace Grammar

/-! ## Where a word stands -/

section

variable {g : Rules} {c : Cursor} {t : String} {n : Nat} (hskip : c.skip = c) (hname : c.skip.name? = some (t, n))

include hskip hname

theorem ahead_atWord_eq_none {ws : List String} (h : ws.contains t = false) : ahead (atWord ws) c = none := by
  refine ahead_eq_none ?_
  rw [hskip, atWord, nextName_eq hname]
  exact h

/-- A word that begins no operand of its own kind and names none is an operand only as one of the constant words. -/
theorem wordOperand_eq (hwords : ["function", "async", "class", "new", "import"].contains t = false)
    (hoperand : isOperandName g t = false) (e : Ending) :
    wordOperand g e c = firstOf [wordOperand.leafWord "this", wordOperand.leafWord "super", wordOperand.leafWord "true",
      wordOperand.leafWord "false", wordOperand.leafWord "null", wordOperand.leafWord "undefined",
      nameOf "identifier" (isOperandName g)] c := by
  have hne : t ≠ "function" ∧ t ≠ "async" ∧ t ≠ "class" ∧ t ≠ "new" ∧ t ≠ "import" := by
    simpa [List.contains_iff_mem] using hwords
  have hahead : ∀ ws : List String, ws.contains t = false → ∀ ps, inOrder (ahead (atWord ws) :: ps) c = none :=
    fun ws h ps => inOrder_eq_none (ahead_atWord_eq_none hskip hname h) ps
  have harrow : bareArrow g e c = none := by
    have hasync : modifier (word "async") c = none := by
      unfold modifier
      rw [word_eq_none hname hne.2.1]
    refine rule_eq_none ?_ _
    rw [hskip, inOrder_cons (optional_eq_nil hasync), inOrder_eq_none (inField_eq_none (nameOf_eq_none hname hoperand) _)]
    rfl
  have himport : ∀ kind ps, rule kind (word "import" :: ps) c = none := by
    intro kind ps
    refine rule_eq_none (inOrder_eq_none ?_ ps) kind
    rw [hskip]
    exact word_eq_none hname hne.2.2.2.2
  unfold wordOperand
  rw [firstOf_cons_of_none (hahead _ (by simp [hne]) _), firstOf_cons_of_none (hahead _ (by simp [hne]) _),
    firstOf_cons_of_none harrow, firstOf_cons_of_none (hahead _ (by simp [hne]) _),
    firstOf_cons_of_none (hahead _ (by simp [hne]) _), firstOf_cons_of_none (himport _ _),
    firstOf_cons_of_none (inOrder_eq_none (himport _ _) _)]

end

/-- A word that is no operator, at no sign that is one, is no more than what it begins. -/
theorem unary_eq_postfixed {g : Rules} {c : Cursor} {sign t : String} (hskip : ∀ n, skipToOperand n c = c)
    (hpunctuator : c.punctuator = sign) (hname : c.nextName = some t)
    (hsign : ["!", "~", "-", "+", "++", "--"].contains sign = false)
    (hword : ["typeof", "void", "delete", "await"].contains t = false) (e : Ending) : unary g e c = postfixed g e c := by
  simp only [List.contains_cons, List.contains_nil, Bool.or_eq_false_iff] at hsign hword
  unfold unary
  simp only [hskip, hpunctuator, hname, hsign, hword, List.contains_cons, List.contains_nil, Bool.or_false,
    Bool.false_eq_true, if_false]

/-! ## The word that begins a declaration -/

/-- The word `const` stands at the cursor, and a blank behind it. -/
def constAt (r : List Char) (off : Nat) : Cursor := ⟨'c' :: 'o' :: 'n' :: 's' :: 't' :: ' ' :: r, off⟩

section

variable (g : Rules) (r : List Char) (off : Nat)

theorem isName_const : IsName ['c', 'o', 'n', 's', 't'] :=
  ⟨⟨'c', _, rfl, by decide⟩, List.all_eq_true.1 (by decide : ['c', 'o', 'n', 's', 't'].all isNameChar = true)⟩

theorem skip_constAt : (constAt r off).skip = constAt r off := isName_const.skip (' ' :: r) off

theorem name?_constAt : (constAt r off).name? = some ("const", 5) := isName_const.name? (by decide) r off

theorem skip_name?_constAt : (constAt r off).skip.name? = some ("const", 5) := by
  rw [skip_constAt, name?_constAt]

theorem skipToOperand_constAt (n : Nat) : skipToOperand n (constAt r off) = constAt r off :=
  skipToOperand_of_skip (skip_constAt r off) rfl n

theorem punctuator_constAt : (constAt r off).punctuator = "c" :=
  punctuator_eq (by decide +kernel) (by decide) _ off

/-- Past the keyword, a blank is next. -/
theorem const_taken : ∃ n, word "const" (constAt r off) = some ([n], ⟨' ' :: r, off + 5⟩) := by
  unfold word
  simp only [skip_constAt, name?_constAt, beq_self_eq_true, if_true]
  exact ⟨_, rfl⟩

theorem keyword_taken : ∃ n, inField "kind" (firstOf [word "let", word "const"]) (constAt r off) =
    some ([n], ⟨' ' :: r, off + 5⟩) := by
  have hlet : word "let" (constAt r off) = none := word_eq_none (skip_name?_constAt r off) (by decide)
  obtain ⟨n, hconst⟩ := const_taken r off
  have hfirst : firstOf [word "let", word "const"] (constAt r off) = some ([n], ⟨' ' :: r, off + 5⟩) := by
    rw [firstOf_cons_of_none hlet, firstOf_cons_of_some hconst]
  exact ⟨_, inField_eq_some hfirst "kind"⟩

theorem enumDeclaration_constAt
    (h : ∀ off ps, inOrder (word "enum" :: inField "name" (identifier g) :: ps) ⟨' ' :: r, off⟩ = none) :
    enumDeclaration g (constAt r off) = none := by
  obtain ⟨n, hconst⟩ := const_taken r off
  have hkeyword : Reaches (optional (word "const")) (constAt r off) (' ' :: r) :=
    Reaches.optional ⟨[n], off + 5, Nat.le_add_right off 5, hconst⟩
  refine rule_eq_none ?_ _
  rw [skip_constAt]
  exact hkeyword.inOrder_eq_none (fun off => h off _)

theorem declaration_constAt : declaration g (constAt r off) =
    firstOf [g.whenTyped (enumDeclaration g) failing, lexicalDeclaration g .statement (declarationEnd g)]
      (constAt r off) := by
  unfold declaration
  simp only [nextName_eq (skip_name?_constAt r off)]
  -- No rule of the typed dialects alone begins with this word.
  split
  · rfl
  · rfl

/-- A statement that begins with `const` is a declaration, or in plain scripts what else a word may begin. -/
theorem statement_constAt : statement g (constAt r off) =
    firstOf (declaration g :: if g.typed then [] else [labeledStatement g, expressionStatement g]) (constAt r off) := by
  unfold statement
  simp only [skipToOperand_constAt, nextName_eq (skip_name?_constAt r off)]
  cases htyped : g.typed with
  | false => rfl
  | true => rfl

end

/-! ## No statement begins with `const` and a hyphenated name -/

section

variable {g : Rules}

/-- No statement ends in front of a hyphen. -/
theorem endAfter_hyphen (operand : Bool) (r : List Char) (off : Nat) : endAfter g operand ⟨'-' :: r, off⟩ = none := by
  have hskip : (⟨'-' :: r, off⟩ : Cursor).skip.rest = '-' :: r := by rw [skip_solid (by decide)]
  have hsemicolon : tok ";" ⟨'-' :: r, off⟩ = none := tok_eq_none hskip (by simp) (by simp)
  have hspace : isSpace '-' = false := by decide
  have hcomment : commentLength ('-' :: r) = none := rfl
  have htyped : ∀ n, typedEnd operand n ⟨'-' :: r, off⟩ ⟨'-' :: r, off⟩ = none
    | 0 => rfl
    | n + 1 => by rw [typedEnd]; simp [hspace, hcomment]
  have hplain : ∀ n, plainEnd n ⟨'-' :: r, off⟩ ⟨'-' :: r, off⟩ = none
    | 0 => rfl
    | n + 1 => by rw [plainEnd]; simp [hspace, hcomment]
  unfold endAfter impliedEnd
  rw [hsemicolon]
  simp only [htyped, hplain, ite_self, Option.map_none]

/-- Where neither mark of a type stands, a variable has none. -/
theorem variableType_eq_nil {c : Cursor} {d : Char} {r : List Char} {off : Nat} (hskip : c.skip = ⟨d :: r, off⟩)
    (hd : isSolid d = true) (hbang : d ≠ '!') (hcolon : d ≠ ':') (line : Bool) :
    g.whenTyped (inOrder [optional (inOrder [punct "!", ahead (·.peek == some ':')]),
      inField "type" (optional (typeMark g line))]) nothing c = some ([], c) := by
  have hrest : c.skip.rest = d :: r := by rw [hskip]
  have hbang : optional (inOrder [punct "!", ahead (·.peek == some ':')]) c = some ([], c) :=
    optional_eq_nil (inOrder_eq_none (punct_eq_none hrest (by simp [hbang.symm])) _)
  have hmark : typeMark g line c = none := by
    refine rule_eq_none (inOrder_eq_none (tok_eq_none (d := d) (r := r) ?_ (by simp [hcolon.symm]) (by simp)) _) _
    rw [hskip, skip_solid hd]
  unfold Rules.whenTyped
  split
  · rw [inOrder_cons hbang, inOrder_cons (inField_eq_some (optional_eq_nil hmark) "type")]
    rfl
  · rfl

/-- Nothing that may follow the name of a variable begins with a hyphen. -/
theorem declarator_tail_hyphen (e : Ending) (r : List Char) (off : Nat) :
    Reaches (inOrder [
      g.whenTyped (inOrder [optional (inOrder [punct "!", ahead (·.peek == some ':')]),
        inField "type" (optional (typeMark g e.line))]) nothing,
      optional (initialValue g e)]) ⟨'-' :: r, off⟩ ('-' :: r) := by
  have hskip : (⟨'-' :: r, off⟩ : Cursor).skip = ⟨'-' :: r, off⟩ := skip_solid (by decide) r off
  have hvalue : initialValue g e ⟨'-' :: r, off⟩ = none :=
    inOrder_eq_none (punct_eq_none (by rw [hskip]) (by simp)) _
  refine .of_nil ?_
  rw [inOrder_cons (variableType_eq_nil hskip (by decide) (by decide) (by decide) e.line),
    inOrder_cons (optional_eq_nil hvalue)]
  rfl

variable {w : List Char} (hw : IsName w) (r : List Char)

include hw

theorem declarator_stops (e : Ending) {c : Cursor} {off : Nat} (hskip : c.skip = ⟨w ++ '-' :: r, off⟩)
    (hle : c.offset ≤ off) : declarator g e c = none ∨ Reaches (declarator g e) c ('-' :: r) := by
  have hagain : c.skip.skip = ⟨w ++ '-' :: r, off⟩ := by rw [hskip, hw.skip]
  have htarget := hw.bindingTarget_eq hagain g
  rcases hw.nameOf_stops (by decide) hagain (by rw [hskip]) "identifier" (isBindingName g) with hnone | hreaches
  · have htarget : bindingTarget g c.skip = none := htarget.trans hnone
    exact .inl (rule_eq_none (inOrder_eq_none (inField_eq_none htarget _) _) _)
  · have htarget : Reaches (bindingTarget g) c.skip ('-' :: r) := by
      obtain ⟨ns, off', hle', hsome⟩ := hreaches
      exact ⟨ns, off', hle', htarget.trans hsome⟩
    have hparts := (htarget.inField "name").inOrder_cons (fun off => declarator_tail_hyphen (g := g) e r off)
    rw [hskip] at hparts
    exact .inr (hparts.rule hskip hle "variable_declarator").reaches

theorem lexicalDeclaration_hyphenated (e : Ending) (off : Nat) :
    lexicalDeclaration g e (declarationEnd g) (constAt (w ++ '-' :: r) off) = none := by
  obtain ⟨n, hkeyword⟩ := keyword_taken (w ++ '-' :: r) off
  have hparts := inOrder_cons hkeyword [separated "," (declarator g e)]
  have hskip := hw.skip_blank ('-' :: r) (off + 5)
  unfold lexicalDeclaration declaring
  simp only [skip_constAt]
  rcases declarator_stops (g := g) hw r e hskip (Nat.le_succ _) with hnone | hreaches
  · have hnames : separated "," (declarator g e) ⟨' ' :: (w ++ '-' :: r), off + 5⟩ = none := inOrder_eq_none hnone _
    rw [inOrder_eq_none hnames] at hparts
    rw [hparts]
    rfl
  · obtain ⟨ns, off', -, hnames⟩ := hreaches.separated (by decide) (s := ",") (by simp) (by simp)
    rw [inOrder_cons hnames] at hparts
    rw [hparts]
    simp [inOrder, declarationEnd, endAfter_hyphen]

theorem enumDeclaration_hyphenated (off : Nat) : enumDeclaration g (constAt (w ++ '-' :: r) off) = none := by
  have hidentifier : ∀ off, identifier g ⟨'-' :: r, off⟩ = none := by
    intro off
    unfold identifier nameOf
    rw [skip_solid (by decide)]
    rfl
  refine enumDeclaration_constAt g _ off (fun off ps => ?_)
  rcases hw.word_stops (by decide) (hw.skip_blank ('-' :: r) off) (Nat.le_succ _) "enum" with hnone | hreaches
  · exact inOrder_eq_none hnone _
  · exact hreaches.inOrder_eq_none (fun off => inOrder_eq_none (inField_eq_none (hidentifier off) _) _)

theorem declaration_hyphenated (off : Nat) : declaration g (constAt (w ++ '-' :: r) off) = none := by
  have henum : g.whenTyped (enumDeclaration g) failing (constAt (w ++ '-' :: r) off) = none :=
    whenTyped_eq_none (enumDeclaration_hyphenated hw r off) g
  rw [declaration_constAt, firstOf_cons_of_none henum,
    firstOf_cons_of_none (lexicalDeclaration_hyphenated hw r .statement off)]
  rfl

end

/-! ## No expression begins with `const` in plain scripts -/

section

variable {g : Rules} (r : List Char) (off : Nat)

theorem isOperandName_const (hplain : g.typed = false) : isOperandName g "const" = false := by
  unfold isOperandName
  rw [hplain]
  decide

theorem wordOperand_constAt (hplain : g.typed = false) (e : Ending) : wordOperand g e (constAt r off) = none := by
  have hname := skip_name?_constAt r off
  rw [wordOperand_eq (skip_constAt r off) hname (by decide) (isOperandName_const hplain)]
  refine firstOf_eq_none ?_
  simp only [List.forall_mem_cons, List.not_mem_nil, false_implies, implies_true, and_true]
  refine ⟨?_, ?_, ?_, ?_, ?_, ?_, nameOf_eq_none hname (isOperandName_const hplain)⟩ <;>
    exact nameOf_eq_none hname (by decide)

theorem unary_constAt (hplain : g.typed = false) (e : Ending) : unary g e (constAt r off) = none := by
  have hprimary : primary g e (constAt r off) = none := by
    unfold primary
    simp only [skipToOperand_constAt]
    exact wordOperand_constAt r off hplain e
  have hpostfixed : postfixed g e (constAt r off) = none := by
    unfold postfixed
    rw [thenGrowing_eq_none hprimary]
  rw [unary_eq_postfixed (skipToOperand_constAt r off) (punctuator_constAt r off) (nextName_eq (skip_name?_constAt r off))
    (by decide) (by decide) e]
  exact hpostfixed

theorem expression_constAt {e : Ending} (hunary : g.sub (.unary e) (constAt r off) = none) :
    expression g e (constAt r off) = none := by
  have hconditional : conditional g e (constAt r off) = none := by
    unfold conditional operand
    rw [thenGrowing_eq_none hunary]
  have hpeek : ((constAt r off).peek == some '\x7b' || (constAt r off).peek == some '[') = false := by
    simp [Cursor.peek, constAt]
  have hyield : (some "const" == some "yield") = false := by decide
  unfold expression
  simp only [skipToOperand_constAt, nextName_eq (skip_name?_constAt r off), hpeek, hyield, hconditional,
    Bool.false_eq_true, if_false]

end

/-! ## The declaration of an alias with a hyphenated name -/

section

variable {w : List Char} (hw : IsName w) (r : List Char) (off : Nat)

include hw

theorem statement_hyphenated {g : Rules}
    (hexpression : g.typed = false → g.sub (.expression .statement) (constAt (w ++ '-' :: r) off) = none) :
    statement g (constAt (w ++ '-' :: r) off) = none := by
  rw [statement_constAt, firstOf_cons_of_none (declaration_hyphenated hw r off)]
  cases htyped : g.typed with
  | true => rfl
  | false =>
    have hlabel : labeledStatement g (constAt (w ++ '-' :: r) off) = none := by
      refine rule_eq_none (inOrder_eq_none (inField_eq_none ?_ _) _) _
      rw [skip_constAt]
      exact nameOf_eq_none (skip_name?_constAt _ off) (isOperandName_const htyped)
    have hvalue : expressionStatement g (constAt (w ++ '-' :: r) off) = none := by
      refine rule_eq_none (inOrder_eq_none ?_ _) _
      rw [skip_constAt]
      unfold expressions sequence
      rw [hexpression htyped]
    rw [if_neg Bool.false_ne_true, firstOf_cons_of_none hlabel, firstOf_cons_of_none hvalue]
    rfl

/-- In no dialect does a statement begin with `const` and a hyphenated name. -/
theorem parseGoal_statement_hyphenated (d : Dialect) :
    ∀ n, parseGoal d n .statement (constAt (w ++ '-' :: r) off) = none
  | 0 => rfl
  | n + 1 => by
    rw [parseGoal, step]
    refine statement_hyphenated hw r off ?_
    intro htyped
    cases n with
    | zero => rfl
    | succ n =>
      simp only [parseGoal, step]
      refine expression_constAt _ off ?_
      cases n with
      | zero => rfl
      | succ n =>
        simp only [parseGoal, step]
        exact unary_constAt (g := ⟨d, parseGoal d n⟩) _ off htyped .statement

theorem statements_hyphenated (d : Dialect) (n : Nat) :
    statements ⟨d, parseGoal d n⟩ (constAt (w ++ '-' :: r) off) = some ([], constAt (w ++ '-' :: r) off) := by
  have hcomment : comment (constAt (w ++ '-' :: r) off) = none := rfl
  have hstatement := parseGoal_statement_hyphenated hw r off d n
  refine many_eq_nil ?_
  rw [firstOf_cons_of_none hcomment, firstOf_cons_of_none hstatement]
  rfl

end

/-- A text that begins with `const` is a program if its statements reach its end. -/
theorem isSome_parse_constAt {d : Dialect} {text r : List Char} (htext : (⟨text, 0⟩ : Cursor) = constAt r 0)
    {ns : List Node} {e : Cursor}
    (h : statements ⟨d, parseGoal d (depthFor text.length)⟩ (constAt r 0) = some (ns, e)) :
    (parse d text).isSome = e.skip.rest.isEmpty := by
  have hbang : optional hashBang (constAt r 0) = some ([], constAt r 0) := optional_eq_nil rfl
  have hparts := inOrder_cons hbang [statements ⟨d, parseGoal d (depthFor text.length)⟩]
  rw [inOrder_cons h, ← skip_constAt] at hparts
  obtain ⟨n, hn⟩ := rule_eq_some hparts "program"
  unfold parse
  simp only [htext, hn]
  split
  · next hempty => rw [hempty]; rfl
  · next hempty => rw [Bool.not_eq_true] at hempty; rw [hempty]; rfl

/-- **A declaration of an alias with a hyphenated name is a program in no dialect.** -/
theorem parse_declaration_hyphenated (stem : String) {x : String} (h : (hyphenatedLength x.toList).isSome = true)
    (d : Dialect) : (parse d (Alias.declaration stem x).toList).isSome = false := by
  obtain ⟨w, r, hx, hw⟩ := exists_of_hyphenated h
  obtain ⟨rest, htext⟩ : ∃ rest, (⟨(Alias.declaration stem x).toList, 0⟩ : Cursor) = constAt (w ++ '-' :: rest) 0 :=
    ⟨r ++ (" = this." ++ stem ++ x ++ ";").toList, by simp [Alias.declaration, constAt, hx]⟩
  rw [isSome_parse_constAt htext (statements_hyphenated hw rest 0 d _), skip_constAt]
  rfl

/-! ## In front of the semicolon -/

section

variable (g : Rules) (off : Nat)

theorem skip_semicolon : (⟨[';'], off⟩ : Cursor).skip = ⟨[';'], off⟩ := skip_solid (by decide) [] off

theorem tok_semicolon {s : String} (h : ∀ t, s.toList ≠ ';' :: t) (hs : s.toList ≠ []) : tok s ⟨[';'], off⟩ = none :=
  tok_eq_none (by rw [skip_semicolon]) h hs

theorem punct_semicolon {s : String} (h : ∀ t, s.toList ≠ ';' :: t) : punct s ⟨[';'], off⟩ = none :=
  punct_eq_none (by rw [skip_semicolon]) h

theorem rule_tok_semicolon {s : String} (h : ∀ t, s.toList ≠ ';' :: t) (hs : s.toList ≠ []) (kind : String)
    (ps : List Parser) : rule kind (tok s :: ps) ⟨[';'], off⟩ = none := by
  refine rule_eq_none (inOrder_eq_none ?_ ps) kind
  rw [skip_semicolon]
  exact tok_semicolon off h hs

theorem stopsAt_semicolon (e : Ending) : e.stopsAt g ⟨[';'], off⟩ = false := by
  have hbreak : (⟨[';'], off⟩ : Cursor).breaksLine = false := by
    simp [Cursor.breaksLine, skip_semicolon]
  rw [Ending.stopsAt, hbreak, Bool.and_false, Bool.false_and]

theorem memberStep_semicolon (left : Node) : memberStep g left ⟨[';'], off⟩ = none := by
  have hchain : rule "optional_chain" [punct "?."] ⟨[';'], off⟩ = none := by
    refine rule_eq_none (inOrder_eq_none ?_ _) _
    rw [skip_semicolon]
    exact punct_semicolon off (by simp)
  have hfield := inField_eq_none hchain "optional_chain"
  unfold memberStep
  rw [firstOf_cons_of_none (around_eq_none (inOrder_eq_none (punct_semicolon off (by simp)) _) _ _ _),
    firstOf_cons_of_none (around_eq_none (inOrder_eq_none hfield _) _ _ _), firstOf_cons_of_none]
  · rfl
  · refine around_eq_none ?_ _ _ _
    rw [inOrder_cons (optional_eq_nil hfield), inOrder_eq_none (tok_semicolon off (by simp) (by simp))]
    rfl

theorem callStep_semicolon (left : Node) : callStep g left ⟨[';'], off⟩ = none := by
  have harguments : arguments g ⟨[';'], off⟩ = none := rule_tok_semicolon off (by simp) (by simp) _ _
  have htemplate : templateString g ⟨[';'], off⟩ = none := rule_tok_semicolon off (by simp) (by simp) _ _
  have htypes : typeArguments g ⟨[';'], off⟩ = none := rule_tok_semicolon off (by simp) (by simp) _ _
  unfold callStep
  rw [firstOf_cons_of_none (around_eq_none (inOrder_eq_none (inField_eq_none harguments _) _) _ _ _),
    firstOf_cons_of_none (around_eq_none (inOrder_eq_none (inField_eq_none htemplate _) _) _ _ _),
    firstOf_cons_of_none (around_eq_none (inOrder_eq_none (punct_semicolon off (by simp)) _) _ _ _),
    firstOf_cons_of_none (whenTyped_eq_none (around_eq_none (inOrder_eq_none (inField_eq_none htypes _) _) _ _ _) g)]
  rfl

theorem nonNullStep_semicolon (e : Ending) (left : Node) : nonNullStep g e left ⟨[';'], off⟩ = none := by
  unfold nonNullStep
  split
  · exact around_eq_none (inOrder_eq_none (punct_semicolon off (by simp)) _) _ _ _
  · rfl

/-- No operator stands here. -/
theorem binaryStep_semicolon (e : Ending) (level : Nat) (left : Node) : binaryStep g e level left ⟨[';'], off⟩ = none := by
  have hname : (⟨[';'], off⟩ : Cursor).name? = none := rfl
  have hsign : (⟨[';'], off⟩ : Cursor).punctuator = ";" := rfl
  have hlevel : binaryLevel ";" = none := rfl
  unfold binaryStep
  simp only [skip_semicolon, hname, hsign, hlevel]
  split
  · rfl
  · rfl

end

/-! ## The value of an alias -/

/-- The word `this` stands at the cursor, and a dot behind it. -/
def thisAt (r : List Char) (off : Nat) : Cursor := ⟨'t' :: 'h' :: 'i' :: 's' :: '.' :: r, off⟩

section

variable (g : Rules) (r : List Char) (off : Nat)

theorem isName_this : IsName ['t', 'h', 'i', 's'] :=
  ⟨⟨'t', _, rfl, by decide⟩, List.all_eq_true.1 (by decide : ['t', 'h', 'i', 's'].all isNameChar = true)⟩

theorem skip_thisAt : (thisAt r off).skip = thisAt r off := isName_this.skip ('.' :: r) off

theorem skip_name?_thisAt : (thisAt r off).skip.name? = some ("this", 4) :=
  isName_this.skip_name? (by decide) (skip_thisAt r off)

theorem punctuator_thisAt : (thisAt r off).punctuator = "t" :=
  punctuator_eq (by decide +kernel) (by decide) _ off

theorem isOperandName_this : isOperandName g "this" = false := by
  unfold isOperandName
  split
  · decide
  · decide

theorem primary_thisAt (e : Ending) : Yields (primary g e) (thisAt r off) ('.' :: r) := by
  have hthis : Yields (wordOperand.leafWord "this") (thisAt r off) ('.' :: r) :=
    isName_this.nameOf_yields (by decide) (skip_thisAt r off) (Nat.le_refl off) "this" (by decide)
  obtain ⟨n, off', hle, hsome⟩ := hthis
  refine ⟨n, off', hle, ?_⟩
  unfold primary
  simp only [skipToOperand_of_skip (skip_thisAt r off) rfl]
  change wordOperand g e (thisAt r off) = _
  rw [wordOperand_eq (skip_thisAt r off) (skip_name?_thisAt r off) (by decide) (isOperandName_this g),
    firstOf_cons_of_some hsome]

theorem expression_thisAt {y : List Char} {e : Ending}
    (hunary : Yields (g.sub (.unary e)) (thisAt (y ++ [';']) off) [';']) {c : Cursor}
    (hskip : c.skip = thisAt (y ++ [';']) off) (hle : c.offset ≤ off) : Reaches (expression g e) c [';'] := by
  obtain ⟨n, off', hle', hsome⟩ := hunary.thenGrowing (fun left off => binaryStep_semicolon g off e 0 left)
  have hcondition : asksCondition g ⟨[';'], off'⟩ = false := by
    unfold asksCondition
    simp only [skip_semicolon]
    rfl
  have hconditional : conditional g e (thisAt (y ++ [';']) off) = some ([n], ⟨[';'], off'⟩) := by
    unfold conditional operand
    rw [hsome]
    simp only [hcondition, Bool.false_eq_true, if_false]
  have hpeek : ((thisAt (y ++ [';']) off).peek == some '\x7b' || (thisAt (y ++ [';']) off).peek == some '[') = false := by
    simp [Cursor.peek, thisAt]
  have hyield : (some "this" == some "yield") = false := by decide
  have hsign : (⟨[';'], off'⟩ : Cursor).punctuator = ";" := rfl
  refine ⟨[n], off', Nat.le_trans hle hle', ?_⟩
  unfold expression
  simp only [skipToOperand_of_skip hskip rfl, nextName_eq (skip_name?_thisAt _ off), hpeek, hyield, hconditional,
    skip_semicolon, hsign, Bool.false_eq_true, if_false]
  split
  · rfl
  · rfl

variable {y : List Char} (hy : IsName y)

include hy

theorem memberStep_name (left : Node) : Yields (memberStep g left) ⟨'.' :: (y ++ [';']), off⟩ [';'] := by
  obtain ⟨b, v, hcons, hstart⟩ := hy.head
  have hdot : b ≠ '.' := by
    rintro rfl
    exact absurd hstart (by decide)
  have hdots : ∀ p ∈ longPunctuators, (p.take 2).head? = some '.' → p.take 2 = ['.', '.'] := by decide +kernel
  have halone : ∀ p ∈ longPunctuators, p.take 2 ≠ ['.', b] := by
    intro p hp h
    have hpair := hdots p hp (by rw [h]; rfl)
    rw [h] at hpair
    exact hdot (List.cons.inj (List.cons.inj hpair).2).1
  have hpunct : (⟨'.' :: (y ++ [';']), off⟩ : Cursor).punctuator = "." := by
    rw [hcons]
    exact punctuator_eq halone (by decide) _ off
  have hsign : Yields (punct ".") ⟨'.' :: (y ++ [';']), off⟩ (y ++ [';']) :=
    punct_yields (skip_solid (by decide) _ off) (Nat.le_refl off) hpunct
  have hproperty : ∀ off, Yields (firstOf [nameOf "property_identifier" (fun _ => true), privateName])
      ⟨y ++ [';'], off⟩ [';'] :=
    fun off => (hy.nameOf_yields (by decide) (hy.skip [';'] off) (Nat.le_refl off) _ rfl).firstOf_cons
  have hparts := hsign.reaches.inOrder_cons (fun off => ((hproperty off).reaches.inField "property").inOrder_cons
    (fun _ => .inOrder_nil))
  exact (hparts.around "member_expression" "object" left).firstOf_cons

theorem postfixed_thisAt (e : Ending) : Yields (postfixed g e) (thisAt (y ++ [';']) off) [';'] := by
  have hsteps : ∀ left off, firstOf [memberStep g left, callStep g left, nonNullStep g e left] ⟨[';'], off⟩ = none := by
    intro left off
    rw [firstOf_cons_of_none (memberStep_semicolon g off left), firstOf_cons_of_none (callStep_semicolon g off left),
      firstOf_cons_of_none (nonNullStep_semicolon g off e left)]
    rfl
  obtain ⟨n, off', hle, hsome⟩ := (primary_thisAt g (y ++ [';']) off e).thenGrowing_once
    (fun left off => (memberStep_name g off hy left).firstOf_cons) hsteps
  have hupdate : around "update_expression" "argument" n [inField "operator" (firstOf [punct "++", punct "--"])]
      ⟨[';'], off'⟩ = none := by
    refine around_eq_none (inOrder_eq_none (inField_eq_none ?_ _) _) _ _ _
    rw [firstOf_cons_of_none (punct_semicolon off' (by simp)), firstOf_cons_of_none (punct_semicolon off' (by simp))]
    rfl
  refine ⟨n, off', hle, ?_⟩
  unfold postfixed
  rw [hsome]
  simp only [stopsAt_semicolon, Bool.false_eq_true, if_false]
  rw [firstOf_cons_of_none hupdate]
  rfl

theorem unary_thisAt (e : Ending) : Yields (unary g e) (thisAt (y ++ [';']) off) [';'] := by
  obtain ⟨n, off', hle, hsome⟩ := postfixed_thisAt g off hy e
  refine ⟨n, off', hle, ?_⟩
  rw [unary_eq_postfixed (skipToOperand_of_skip (skip_thisAt _ off) rfl) (punctuator_thisAt _ off)
    (nextName_eq (skip_name?_thisAt _ off)) (by decide) (by decide) e]
  exact hsome

end

/-! ## The declaration of an alias with any other name -/

section

variable {g : Rules} {w y : List Char} (hw : IsName w)

/-- What stands behind the name. -/
def valueText (y : List Char) : List Char := ' ' :: '=' :: ' ' :: (thisAt (y ++ [';']) 0).rest

theorem initialValue_reaches {e : Ending}
    (hexpression : ∀ off, Reaches (g.sub (.expression e)) ⟨' ' :: (thisAt (y ++ [';']) 0).rest, off⟩ [';']) (off : Nat) :
    Reaches (initialValue g e) ⟨valueText y, off⟩ [';'] := by
  have halone : ∀ p ∈ longPunctuators, p.take 2 ≠ ['=', ' '] := by decide +kernel
  have hsign : Yields (punct "=") ⟨valueText y, off⟩ (' ' :: (thisAt (y ++ [';']) 0).rest) :=
    punct_yields (skip_blank (by decide) _ off) (Nat.le_succ off) (punctuator_eq halone (by decide) _ _)
  exact hsign.reaches.inOrder_cons (fun off => ((hexpression off).inField "value").inOrder_cons (fun _ => .inOrder_nil))

include hw

theorem declarator_reaches {e : Ending}
    (hexpression : ∀ off, Reaches (g.sub (.expression e)) ⟨' ' :: (thisAt (y ++ [';']) 0).rest, off⟩ [';'])
    (hbinding : isBindingName g (String.ofList w) = true) (off : Nat) :
    Reaches (declarator g e) ⟨' ' :: (w ++ valueText y), off⟩ [';'] := by
  have hskip := hw.skip_blank (valueText y) off
  have hagain := hw.skip (valueText y) (off + 1)
  have htarget : Reaches (bindingTarget g) ⟨w ++ valueText y, off + 1⟩ (valueText y) := by
    obtain ⟨n, off', hle, hsome⟩ := hw.nameOf_yields (by decide) hagain (Nat.le_refl _) "identifier" hbinding
    exact ⟨[n], off', hle, (hw.bindingTarget_eq hagain g).trans hsome⟩
  have htype : ∀ off, Reaches (g.whenTyped (inOrder [optional (inOrder [punct "!", ahead (·.peek == some ':')]),
      inField "type" (optional (typeMark g e.line))]) nothing) ⟨valueText y, off⟩ (valueText y) :=
    fun off => .of_nil (variableType_eq_nil (skip_blank (by decide) _ off) (by decide) (by decide) (by decide) e.line)
  have hvalue := fun off => (initialValue_reaches hexpression off).optional
  have hparts := (htarget.inField "name").inOrder_cons (fun off => (htype off).inOrder_cons (fun off =>
    (hvalue off).inOrder_cons (fun _ => .inOrder_nil)))
  exact (hparts.rule hskip (Nat.le_succ off) "variable_declarator").reaches

theorem lexicalDeclaration_eq_some {e : Ending}
    (hexpression : ∀ off, Reaches (g.sub (.expression e)) ⟨' ' :: (thisAt (y ++ [';']) 0).rest, off⟩ [';'])
    (hbinding : isBindingName g (String.ofList w) = true) (off : Nat) :
    ∃ ns off', off + 5 ≤ off' ∧
      lexicalDeclaration g e (declarationEnd g) (constAt (w ++ valueText y) off) = some (ns, ⟨[], off'⟩) := by
  obtain ⟨n, hkeyword⟩ := keyword_taken (w ++ valueText y) off
  have hparts := inOrder_cons hkeyword [separated "," (declarator g e)]
  obtain ⟨ns, off', hle, hnames⟩ := (declarator_reaches hw hexpression hbinding (off + 5)).separated (by decide)
    (s := ",") (by simp) (by simp)
  rw [inOrder_cons hnames] at hparts
  obtain ⟨m, off'', hle', hsemicolon⟩ : Yields (tok ";") ⟨[';'], off'⟩ [] :=
    tok_yields (skip_semicolon off') (Nat.le_refl off')
  unfold lexicalDeclaration declaring
  simp only [skip_constAt]
  rw [hparts]
  simp only [inOrder, Option.map_some, declarationEnd, endAfter, hsemicolon]
  exact ⟨_, off'', Nat.le_trans hle hle', rfl⟩

/-- In every dialect the declaration is a statement, if the name is none of the words that mean something of their own. -/
theorem parseGoal_statement_plain (hy : IsName y) (henum : String.ofList w ≠ "enum")
    (hbinding : reservedWords.contains (String.ofList w) = false) (d : Dialect) (n : Nat) :
    ∃ ns off', 5 ≤ off' ∧
      parseGoal d (n + 4) .statement (constAt (w ++ valueText y) 0) = some (ns, ⟨[], off'⟩) := by
  have hexpression : ∀ off, Reaches (parseGoal d (n + 3) (.expression .statement))
      ⟨' ' :: (thisAt (y ++ [';']) 0).rest, off⟩ [';'] := fun off =>
    expression_thisAt ⟨d, parseGoal d (n + 2)⟩ (off + 1) (unary_thisAt ⟨d, parseGoal d (n + 1)⟩ (off + 1) hy .statement)
      (isName_this.skip_blank ('.' :: (y ++ [';'])) off) (Nat.le_succ off)
  have hname : isBindingName ⟨d, parseGoal d (n + 3)⟩ (String.ofList w) = true := by
    rw [isBindingName, hbinding, Bool.not_false, Bool.or_true]
  obtain ⟨ns, off', hle, hlexical⟩ := lexicalDeclaration_eq_some (g := ⟨d, parseGoal d (n + 3)⟩) hw hexpression hname 0
  have hnone : enumDeclaration ⟨d, parseGoal d (n + 3)⟩ (constAt (w ++ valueText y) 0) = none :=
    enumDeclaration_constAt _ _ 0 (fun off _ => inOrder_eq_none
      (word_eq_none (hw.skip_name? (by decide) (hw.skip_blank (valueText y) off)) henum) _)
  refine ⟨ns, off', by omega, ?_⟩
  change statement ⟨d, parseGoal d (n + 3)⟩ (constAt (w ++ valueText y) 0) = _
  rw [statement_constAt]
  refine firstOf_cons_of_some ?_ _
  rw [declaration_constAt, firstOf_cons_of_none (whenTyped_eq_none hnone _), firstOf_cons_of_some hlexical]

end

theorem parseGoal_statement_nil (d : Dialect) (n off : Nat) : parseGoal d n .statement ⟨[], off⟩ = none := by
  cases n with
  | zero => rfl
  | succ n => rfl

theorem statements_plain {w y : List Char} (hw : IsName w) (hy : IsName y) (henum : String.ofList w ≠ "enum")
    (hbinding : reservedWords.contains (String.ofList w) = false) (d : Dialect) (length : Nat) :
    ∃ ns off, statements ⟨d, parseGoal d (depthFor length)⟩ (constAt (w ++ valueText y) 0) = some (ns, ⟨[], off⟩) := by
  obtain ⟨n, hn⟩ : ∃ n, depthFor length = n + 4 := ⟨16 * length + 28, by unfold depthFor; omega⟩
  obtain ⟨ns, off, hle, hstatement⟩ := parseGoal_statement_plain hw hy henum hbinding d n
  have hcomment : comment (constAt (w ++ valueText y) 0) = none := rfl
  have hend : firstOf [comment, parseGoal d (n + 4) .statement] ⟨[], off⟩ = none := by
    rw [firstOf_cons_of_none rfl, firstOf_cons_of_none (parseGoal_statement_nil d (n + 4) off)]
    rfl
  rw [hn]
  refine ⟨ns, off, many_eq_one ?_ (Nat.lt_of_lt_of_le (Nat.succ_pos 4) hle) hend⟩
  rw [firstOf_cons_of_none hcomment, firstOf_cons_of_some hstatement]

/-- **A declaration of an alias is a program in every dialect**, if its name holds no hyphen. -/
theorem parse_declaration_plain {stem x : String} (hstem : Text.isIdentifier stem = true)
    (hcomponent : isComponentName x = true) (hx : IsName x.toList) (d : Dialect) :
    (parse d (Alias.declaration stem x).toList).isSome = true := by
  have hwords : ∀ w ∈ "enum" :: reservedWords, isComponentName w = false := by decide
  have hne : ∀ w ∈ "enum" :: reservedWords, x ≠ w := by
    rintro w hw rfl
    rw [hwords x hw] at hcomponent
    cases hcomponent
  have henum : String.ofList x.toList ≠ "enum" := by
    rw [String.ofList_toList]
    exact hne "enum" List.mem_cons_self
  have hbinding : reservedWords.contains (String.ofList x.toList) = false := by
    rw [String.ofList_toList]
    refine Bool.eq_false_iff.2 (fun hmem => hne x (List.mem_cons_of_mem _ (List.contains_iff_mem.1 hmem)) rfl)
  have hvalue : IsName (stem.toList ++ x.toList) := (IsName.of_isIdentifier hstem).append hx.chars
  have htext : (⟨(Alias.declaration stem x).toList, 0⟩ : Cursor) =
      constAt (x.toList ++ valueText (stem.toList ++ x.toList)) 0 := by
    simp [Alias.declaration, constAt, thisAt, valueText]
  obtain ⟨ns, off, hstatements⟩ := statements_plain hx hvalue henum hbinding d (Alias.declaration stem x).toList.length
  rw [isSome_parse_constAt htext hstatements]
  rfl

/-- **The declaration of an alias is a program, in whichever dialect, exactly if its name holds no hyphen.** -/
theorem parse_declaration_iff {stem x : String} (hstem : Text.isIdentifier stem = true)
    (hcomponent : isComponentName x = true) (hx : IsName x.toList ∨ (hyphenatedLength x.toList).isSome = true)
    (d : Dialect) : (parse d (Alias.declaration stem x).toList).isSome = true ↔ '-' ∉ x.toList := by
  constructor
  · intro hsome hhyphen
    rcases hx with hname | hhyphenated
    · exact absurd (hname.chars '-' hhyphen) (by decide)
    · rw [parse_declaration_hyphenated stem hhyphenated d] at hsome
      cases hsome
  · intro hhyphen
    rcases hx with hname | hhyphenated
    · exact parse_declaration_plain hstem hcomponent hname d
    · obtain ⟨w, r, hcons, -⟩ := exists_of_hyphenated hhyphenated
      exact absurd (hcons ▸ List.mem_append_right w List.mem_cons_self) hhyphen

end Grammar
end TagAlias
