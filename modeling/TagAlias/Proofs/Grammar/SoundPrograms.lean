import TagAlias.Proofs.Grammar.SoundTypes
/-!
# Whole programs keep to the text

The rules for members, markup, expressions and statements are sound as those for types are, so by induction on the depth
of nesting all goals are (`soundRules`): every node of a tree that is read from a text is whole (`allWhole_of_parse`).
-/
namespace TagAlias
namespace Grammar

variable {text : List Char}

section

variable {g : Rules} (hg : SoundRules text g)

include hg

/-! ## Members of objects and classes -/

omit hg in
theorem sound_methodModifiers : Sound text (methodModifiers g) :=
  .many (.firstOf ⟨
    .modifier (.firstOf ⟨
      .whenTyped (.firstOf ⟨sound_accessibility, sound_overriding, .word⟩) .failing,
      .word, .word, .word, .word⟩),
    .punct⟩)

omit hg in
theorem makes_methodModifiers : Makes IsFilled (methodModifiers g) :=
  .many (.firstOf ⟨
    .modifier (.firstOf ⟨
      .whenTyped (.firstOf ⟨.rule, .rule, .word⟩) .failing,
      .word, .word, .word, .word⟩),
    .punct⟩)

theorem sound_methodDefinition : Sound text (methodDefinition g) :=
  .method
    ⟨.whenTyped .nothing (sound_decorators hg), sound_methodModifiers, .inField (sound_propertyName hg),
      .whenTyped (.optional .tok) .nothing, sound_callSignature hg, .inField (hg.sub _)⟩
    ⟨.whenTyped .nothing (.many (.inField (by decide))), makes_methodModifiers, .inField (by decide),
      .whenTyped (.optional .tok) .nothing, makes_callSignature, .body hg.block⟩

theorem sound_object : Sound text (object g) :=
  .rule rfl ⟨.tok,
    .withHoles (.firstOf ⟨
      .rule rfl ⟨.tok, sound_inner hg⟩,
      .rule rfl ⟨.inField (sound_propertyName hg), .tok, .inField (sound_inner hg)⟩,
      sound_methodDefinition hg,
      .nameOf⟩),
    .tok⟩

theorem sound_methodSignature : Sound text (methodSignature g) := by
  have hrule (kind : String) : Sound text (rule kind [
      many (firstOf [modifier (firstOf [accessibility, overriding, word "static", word "readonly", word "abstract",
        word "async", word "get", word "set"]), punct "*"]),
      inField "name" (propertyName g), optional (tok "?"), callSignature g true]) :=
    .method
      ⟨.many (.firstOf ⟨.modifier (.firstOf ⟨sound_accessibility, sound_overriding, .word, .word, .word, .word, .word,
        .word⟩), .punct⟩), .inField (sound_propertyName hg), .optional .tok, sound_callSignature hg⟩
      ⟨.many (.firstOf ⟨.modifier (.firstOf ⟨.rule, .rule, .word, .word, .word, .word, .word, .word⟩), .punct⟩),
        .inField (by decide), .optional .tok, makes_callSignature⟩
  intro c hc
  unfold methodSignature
  dsimp only
  split
  · exact hrule _ c hc
  · exact .fails

theorem sound_field : Sound text (field g) :=
  .whenTyped
    (.rule rfl ⟨
      sound_decorators hg,
      .many (.modifier (.firstOf ⟨sound_accessibility, sound_overriding, .word, .word, .word, .word, .word⟩)),
      .inField (sound_propertyName hg), .optional (.firstOf ⟨.tok, .tok⟩),
      .inField (.optional (sound_typeMark hg)), .optional (sound_initialValue hg)⟩)
    (.rule rfl ⟨
      sound_decorators hg, .optional (.modifier .word), .inField (sound_propertyName hg),
      .optional (sound_initialValue hg)⟩)

omit hg in
theorem sound_memberEnd {operand : Bool} : Sound text (memberEnd g operand) :=
  .firstOf ⟨.whenTyped .tok .failing, .endAfter⟩

omit hg in
theorem sound_ended {p : Parser} (hp : Sound text p) : Sound text (ended g p) := by
  intro c hc
  unfold ended
  split
  · next ns d heq =>
    obtain ⟨hd, hns⟩ := hp c hc ns d heq
    dsimp only
    split
    · next ms e heq' =>
      obtain ⟨he, hms⟩ := sound_memberEnd d hd ms e heq'
      exact .yields he (fun n hn => (List.mem_append.1 hn).elim (hns n) (hms n))
    · exact .fails
  · exact .fails

omit hg in
theorem sound_commentNode : Sound text commentNode := fun _ hc =>
  Sound.piece (fun c => commentLength c.rest) _ hc.skipBlanks

theorem sound_classMember : Sound text (classMember g) :=
  .firstOf ⟨
    sound_commentNode,
    .rule rfl ⟨.word, .inField (hg.sub _)⟩,
    .inOrder ⟨.whenTyped (sound_decorators hg) .nothing, sound_methodDefinition hg, .optional .tok⟩,
    .inOrder (Sound.whenTyped (.inOrder ⟨sound_decorators hg, sound_methodSignature hg, sound_memberEnd⟩) .failing),
    .whenTyped (.inOrder ⟨sound_indexSignature hg, sound_memberEnd⟩) .failing,
    sound_ended (sound_field hg),
    .tok⟩

theorem sound_classBody : Sound text (classBody g) := .rule rfl ⟨.tok, .many (sound_classMember hg), .tok⟩

theorem sound_heritage : Sound text (heritage g) := by
  have hclause : Sound text (rule "extends_clause" [word "extends",
      separated "," (inOrder [inField "value" (g.sub (.operand .bracket 20)),
        inField "type_arguments" (optional (typeArguments g))])]) :=
    .rule rfl ⟨.word, .separated (.inOrder ⟨.inField (hg.sub _), .inField (.optional (sound_typeArguments hg))⟩)⟩
  have hpromises : Sound text (rule "implements_clause" [word "implements", separated "," (g.sub (.typeTerm false))]) :=
    .rule rfl ⟨.word, .separated (hg.sub _)⟩
  exact .whenTyped
    (.rule rfl (Sound.firstOf ⟨.inOrder ⟨hclause, .optional hpromises⟩, hpromises⟩))
    (.rule rfl ⟨.word, hg.sub _⟩)

theorem sound_classTail : Sound text (classTail g) :=
  .inOrder ⟨.inField (.whenTyped (.optional (sound_typeParameters hg)) .nothing), .optional (sound_heritage hg),
    .inField (sound_classBody hg)⟩

omit hg in
theorem sound_className : Sound text (className g) := .inField .nameOf

theorem sound_classExpression : Sound text (classExpression g) :=
  .rule rfl ⟨sound_decorators hg, .word, .optional sound_className, sound_classTail hg⟩

theorem sound_classDeclaration : Sound text (classDeclaration g) :=
  .firstOf ⟨
    .rule rfl ⟨sound_decorators hg, .word, sound_className, sound_classTail hg⟩,
    .whenTyped (.rule rfl ⟨sound_decorators hg, .word, .word, sound_className, sound_classTail hg⟩) .failing⟩

/-! ## Markup -/

omit hg in
theorem sound_markupName {kind : String} : Sound text (markupName g kind) := by
  intro c hc
  unfold markupName
  dsimp only
  split
  · exact Sound.taking _ _ _ _ hc.skip
  · exact Sound.nameOf _ hc.skip

omit hg in
theorem sound_spacedName : Sound text (spacedName g) := .rule rfl ⟨sound_markupName, .tok, sound_markupName⟩

omit hg in
theorem sound_memberName : Sound text (memberName g) :=
  .inOrder ⟨.ahead, .thenGrowing .nameOf (fun _ hn => .around rfl hn ⟨.punct, .inField .nameOf⟩)⟩

theorem sound_elementName : Sound text (elementName g) :=
  .firstOf ⟨
    .inField sound_spacedName,
    .inOrder ⟨.inField sound_memberName, .inField (.whenTyped (.optional (sound_typeArguments hg)) .nothing)⟩,
    .inField sound_markupName⟩

omit hg in
theorem sound_characterReference : Sound text characterReference := .piece _

omit hg in
theorem sound_attributeString (q : Char) : Sound text (attributeString q) := by
  refine .rule rfl ⟨.tok, .many (.firstOf ⟨sound_characterReference, fun c hc => ?_⟩), .tight⟩
  dsimp only
  split
  · exact Sound.taking _ _ _ _ hc
  · split
    · exact .fails
    · exact Sound.taking _ _ _ _ hc

theorem sound_sequence {e : Ending} : Sound text (sequence g e) := by
  intro c hc
  unfold sequence
  split
  · next first d heq =>
    obtain ⟨hd, hns⟩ := hg.sub _ c hc _ d heq
    have hfirst := hns first List.mem_cons_self
    split
    · have hrest : Sound text (around "sequence_expression" "" first [many (inOrder [tok ",", g.sub (.expression e)])]) :=
        .around rfl hfirst (Sound.many (.inOrder ⟨.tok, hg.sub _⟩))
      exact hrest d hd
    · exact .node hd hfirst
  · exact hg.sub _ c hc

theorem sound_embedded : Sound text (embedded g) :=
  .rule rfl ⟨.tok, .optional (.firstOf ⟨.rule rfl ⟨.tok, sound_inner hg⟩, sound_sequence hg⟩), .tok⟩

theorem sound_markupAttribute : Sound text (markupAttribute g) :=
  .firstOf ⟨
    .rule rfl ⟨
      .firstOf ⟨sound_spacedName, sound_markupName⟩,
      .optional (.inOrder ⟨.punct,
        .firstOf ⟨sound_attributeString _, sound_attributeString _, sound_embedded hg, hg.sub _⟩⟩)⟩,
    sound_embedded hg⟩

omit hg in
theorem sound_markupText : Sound text markupText := by
  intro c hc
  unfold markupText
  dsimp only
  split
  · exact Sound.taking _ _ _ _ hc
  · exact .fails

theorem sound_child : Sound text (child g) :=
  .firstOf ⟨sound_markupText, sound_characterReference, .inOrder ⟨.ahead, hg.sub _⟩, sound_embedded hg⟩

omit hg in
theorem sound_closingTag : Sound text (closingTag g) :=
  .rule rfl ⟨.tok, .inField (.optional (.firstOf ⟨sound_spacedName, sound_memberName, sound_markupName⟩)), .tok⟩

theorem sound_element : Sound text (element g) := by
  have hhead : Sound text (inOrder [tok "<",
      optional (inOrder [elementName g, many (inField "attribute" (markupAttribute g))])]) :=
    .inOrder ⟨.tok, .optional (.inOrder ⟨sound_elementName hg, .many (.inField (sound_markupAttribute hg))⟩)⟩
  have hrest {opening : Node} (hopening : AllWhole text opening) : Sound text
      (around "jsx_element" "open_tag" opening [many (child g), inField "close_tag" (closingTag g)]) :=
    .around rfl hopening ⟨.many (sound_child hg), .inField sound_closingTag⟩
  intro c hc
  have hstart := hc.skip
  unfold element
  dsimp only
  split
  · exact .fails
  · next ns d heq =>
    obtain ⟨hd, hns⟩ := hhead c.skip hstart ns d heq
    have hwith {close : List Node} (hclose : ∀ n ∈ close, AllWhole text n) : ∀ n ∈ ns ++ close, AllWhole text n :=
      fun n hn => (List.mem_append.1 hn).elim (hns n) (hclose n)
    split
    · next close e heq' =>
      obtain ⟨he, hclose⟩ := Sound.tok d hd close e heq'
      exact .node he (.rule (by decide) hstart.isCut he.isCut (hwith hclose))
    · split
      · exact .fails
      · next close e heq' =>
        obtain ⟨he, hclose⟩ := Sound.tok d hd close e heq'
        exact hrest (.rule (by decide) hstart.isCut he.isCut (hwith hclose)) e he

/-! ## Functions and operands -/

theorem sound_functionExpression : Sound text (functionExpression g) :=
  .firstOf ⟨
    .rule rfl ⟨.optional .word, .word, .tok, .inField (.optional .identifier), sound_callSignature hg, .inField (hg.sub _)⟩,
    .rule rfl ⟨.optional .word, .word, .inField (.optional .identifier), sound_callSignature hg, .inField (hg.sub _)⟩⟩

theorem sound_arrowBody {e : Ending} : Sound text (arrowBody g e) :=
  .inOrder ⟨.punct, .inField (.firstOf ⟨.inOrder ⟨.ahead, hg.sub _⟩, hg.sub _⟩)⟩

theorem sound_bareArrow {e : Ending} : Sound text (bareArrow g e) :=
  .rule rfl ⟨.optional (.modifier .word), .inField .nameOf, sound_arrowBody hg⟩

theorem sound_arrowFunction {e : Ending} : Sound text (arrowFunction g e) := by
  have hparameters : Sound text
      (if e.colon then inField "parameters" (formalParameters g) else callSignature g false) := by
    split
    · exact .inField (sound_formalParameters hg)
    · exact sound_callSignature hg
  exact .rule rfl ⟨.optional (.inOrder ⟨.word, .ahead⟩), hparameters, sound_arrowBody hg⟩

theorem sound_parenthesized : Sound text (parenthesized g) :=
  .rule rfl ⟨.tok, sound_sequence hg, .inField (.whenTyped (.optional (sound_typeMark hg)) .nothing), .tok⟩

theorem sound_parenthesizedOrArrow {e : Ending} : Sound text (parenthesizedOrArrow g e) := by
  intro c hc
  unfold parenthesizedOrArrow
  split
  · exact sound_arrowFunction hg c hc
  · next r heq =>
    have hr : Built text (some r) := heq ▸ sound_parenthesized hg c hc
    dsimp only
    split
    · split
      · next a heq' => exact heq' ▸ sound_arrowFunction hg c hc
      · exact hr
    · exact hr

theorem sound_templateString : Sound text (templateString g) :=
  .rule rfl ⟨.tok, sound_templatePieces (.rule rfl ⟨.tok, sound_sequence hg, .tok⟩), .tight⟩

theorem sound_array : Sound text (array g) :=
  .rule rfl ⟨.tok, .withHoles (.firstOf ⟨.rule rfl ⟨.tok, sound_inner hg⟩, sound_inner hg⟩), .tok⟩

theorem sound_newExpression : Sound text (newExpression g) :=
  .firstOf ⟨
    .rule rfl ⟨.word, .punct, .word⟩,
    .rule rfl ⟨.word, .inField (hg.sub _),
      .inField (.whenTyped (.optional (.inOrder ⟨sound_typeArguments hg, .ahead⟩)) .nothing),
      .inField (.optional (sound_arguments hg))⟩⟩

theorem sound_wordOperand {e : Ending} : Sound text (wordOperand g e) :=
  .firstOf ⟨
    .inOrder ⟨.ahead, sound_functionExpression hg⟩,
    .inOrder ⟨.ahead, sound_arrowFunction hg⟩,
    sound_bareArrow hg,
    .inOrder ⟨.ahead, sound_classExpression hg⟩,
    .inOrder ⟨.ahead, sound_newExpression hg⟩,
    .rule rfl ⟨.word, .punct, .word⟩,
    .inOrder ⟨.rule rfl .word, .ahead⟩,
    .nameOf, .nameOf, .nameOf, .nameOf, .nameOf, .nameOf,
    .nameOf⟩

theorem sound_primary {e : Ending} : Sound text (primary g e) := by
  intro c hc
  have hstart := hc.skipToOperand (c.rest.length + 1)
  have hangle : Sound text (firstOf [
      g.whenTyped (inOrder [arrowFunction g e]) failing,
      if g.markup then g.sub .element else rule "type_assertion" [typeArguments g, g.sub (.unary e)]]) := by
    refine .firstOf ⟨.whenTyped (.inOrder (sound_arrowFunction hg)) .failing, ?_⟩
    split
    · exact hg.sub _
    · exact .rule rfl ⟨sound_typeArguments hg, hg.sub _⟩
  have hprivate : Sound text (inOrder [privateName, ahead (atWord ["in"])]) := .inOrder ⟨sound_privateName, .ahead⟩
  unfold primary
  dsimp only
  split
  · exact .fails
  -- one for each character that an operand may begin with
  · refine .ite (sound_parenthesizedOrArrow hg _ hstart) ?_
    refine .ite (sound_array hg _ hstart) ?_
    refine .ite (sound_object hg _ hstart) ?_
    refine .ite (hangle _ hstart) ?_
    refine .ite (sound_templateString hg _ hstart) ?_
    refine .ite (sound_string _ hstart) ?_
    refine .ite (sound_regex _ hstart) ?_
    refine .ite (hprivate _ hstart) ?_
    refine .ite (sound_classExpression hg _ hstart) ?_
    exact .ite (sound_number _ hstart) (sound_wordOperand hg _ hstart)

/-! ## Members, calls and operators -/

theorem sound_memberStep {left : Node} (hleft : AllWhole text left) : Sound text (memberStep g left) :=
  .firstOf ⟨
    .around rfl hleft ⟨.punct, .inField (.firstOf ⟨.nameOf, sound_privateName⟩)⟩,
    .around rfl hleft ⟨.inField (.rule rfl .punct), .inField (.firstOf ⟨.nameOf, sound_privateName⟩)⟩,
    .around rfl hleft ⟨.optional (.inField (.rule rfl .punct)), .tok, .inField (sound_sequence hg), .tok⟩⟩

theorem sound_callStep {left : Node} (hleft : AllWhole text left) : Sound text (callStep g left) :=
  .firstOf ⟨
    .around rfl hleft (Sound.inField (sound_arguments hg)),
    .around rfl hleft (Sound.inField (sound_templateString hg)),
    .around rfl hleft ⟨.punct, .inField (.whenTyped (.optional (sound_typeArguments hg)) .nothing),
      .inField (sound_arguments hg)⟩,
    .whenTyped
      (.around rfl hleft ⟨.inField (sound_typeArguments hg), .inField (.firstOf ⟨sound_arguments hg, sound_templateString hg⟩)⟩)
      .failing⟩

omit hg in
theorem sound_nonNullStep {e : Ending} {left : Node} (hleft : AllWhole text left) : Sound text (nonNullStep g e left) := by
  have hmark : Sound text (around "non_null_expression" "" left [punct "!"]) := .around rfl hleft Sound.punct
  intro c hc
  unfold nonNullStep
  split
  · exact hmark c hc
  · exact .fails

theorem sound_newTarget : Sound text (newTarget g) :=
  .thenGrowing (sound_primary hg) (fun _ hn => .firstOf ⟨sound_memberStep hg hn, sound_nonNullStep hn⟩)

theorem sound_postfixed {e : Ending} : Sound text (postfixed g e) := by
  have hoperand : Sound text (thenGrowing (primary g e)
      (fun left => firstOf [memberStep g left, callStep g left, nonNullStep g e left])) :=
    .thenGrowing (sound_primary hg)
      (fun _ hn => .firstOf ⟨sound_memberStep hg hn, sound_callStep hg hn, sound_nonNullStep hn⟩)
  intro c hc
  unfold postfixed
  split
  · next node d heq =>
    obtain ⟨hd, hns⟩ := hoperand c hc _ d heq
    have hnode := hns node List.mem_cons_self
    have hrest : Sound text (firstOf [
        around "update_expression" "argument" node [inField "operator" (firstOf [punct "++", punct "--"])],
        fun c => some ([node], c)]) :=
      .firstOf ⟨.around rfl hnode (Sound.inField (.firstOf ⟨.punct, .punct⟩)), .self hnode⟩
    split
    · exact .node hd hnode
    · exact hrest d hd
  · exact hoperand c hc

theorem sound_unary {e : Ending} : Sound text (unary g e) := by
  intro c hc
  have hstart := hc.skipToOperand (c.rest.length + 1)
  have hmarked (kind : String) (p : Parser) (hp : Sound text p) (hkind : Component.methodKinds.contains kind = false) :
      Sound text (rule kind [inField "operator" p, inField "argument" (g.sub (.unary e))]) :=
    .rule hkind ⟨.inField hp, .inField (hg.sub _)⟩
  have hawait : Sound text (firstOf [rule "await_expression" [word "await", g.sub (.unary e)], postfixed g e]) :=
    .firstOf ⟨.rule rfl ⟨.word, hg.sub _⟩, sound_postfixed hg⟩
  unfold unary
  dsimp only
  refine .ite (hmarked _ _ .punct rfl _ hstart) (.ite (hmarked _ _ .punct rfl _ hstart) ?_)
  split
  · exact sound_postfixed hg _ hstart
  · refine .ite (hmarked _ _ .word rfl _ hstart) ?_
    exact .ite (hawait _ hstart) (sound_postfixed hg _ hstart)

theorem sound_binaryStep {e : Ending} {level : Nat} {left : Node} (hleft : AllWhole text left) :
    Sound text (binaryStep g e level left) := by
  have hinstantiation : Sound text (around "instantiation_expression" "" left
      [inField "type_arguments" (typeArguments g), ahead (!startsOperand ·)]) :=
    .around rfl hleft ⟨.inField (sound_typeArguments hg), .ahead⟩
  have hbinary (mark : Parser) (hmark : Sound text mark) (l : Nat) : Sound text (around "binary_expression" "left" left
      [inField "operator" mark, inField "right" (g.sub (.operand e l))]) :=
    .around rfl hleft ⟨.inField hmark, .inField (hg.sub _)⟩
  have has : Sound text (around "as_expression" "" left
      [word "as", firstOf [inOrder [word "const"], g.sub (.typeTerm e.line)]]) :=
    .around rfl hleft ⟨.word, .firstOf ⟨.inOrder Sound.word, hg.sub _⟩⟩
  have hsatisfies : Sound text (around "satisfies_expression" "" left [word "satisfies", g.sub (.typeTerm e.line)]) :=
    .around rfl hleft ⟨.word, hg.sub _⟩
  intro c hc
  unfold binaryStep
  lift_lets
  intro d sign mark
  have hmark : Sound text mark := by
    dsimp only [mark]
    split
    · exact .word
    · exact .punct
  -- From here on it does not matter what the mark is, only that it is sound.
  clear_value mark sign
  split
  · split
    · exact .fails
    · refine Sound.firstOf (List.forall_iff_forall_mem.2 ?_) c hc
      intro p hp
      rcases List.mem_cons.1 hp with rfl | hp
      · split
        · exact hinstantiation
        · exact .failing
      · rw [List.mem_singleton.1 hp]
        exact hbinary _ hmark _
  · split
    · exact .fails
    split
    · exact has c hc
    split
    · exact hsatisfies c hc
    · exact .fails

theorem sound_operand {e : Ending} {level : Nat} : Sound text (operand g e level) :=
  .thenGrowing (hg.sub _) (fun _ hn => sound_binaryStep hg hn)

theorem sound_conditional {e : Ending} : Sound text (conditional g e) := by
  intro c hc
  unfold conditional
  split
  · next test d heq =>
    obtain ⟨hd, hns⟩ := sound_operand hg c hc _ d heq
    have htest := hns test List.mem_cons_self
    have hbranches : Sound text (around "ternary_expression" "condition" test [tok "?",
        inField "consequence" (g.sub (.expression ⟨false, true⟩)), tok ":", inField "alternative" (g.sub (.expression e))]) :=
      .around rfl htest ⟨.tok, .inField (hg.sub _), .tok, .inField (hg.sub _)⟩
    split
    · exact hbranches d hd
    · exact .node hd htest
  · exact sound_operand hg c hc

/-! ## Expressions -/

theorem sound_yieldExpression {e : Ending} : Sound text (yieldExpression g e) := by
  have hvalue : Sound text (fun d => if e.stopsAt g d then none else g.sub (.expression e) d) := by
    intro d hd
    dsimp only
    split
    · exact .fails
    · exact hg.sub _ d hd
  have hrule : Sound text (rule "yield_expression" [word "yield", firstOf [
      inOrder [punct "*", g.sub (.expression e)],
      fun d => if e.stopsAt g d then none else g.sub (.expression e) d,
      nothing]]) :=
    .rule rfl ⟨.word, .firstOf ⟨.inOrder ⟨.punct, hg.sub _⟩, hvalue, .nothing⟩⟩
  exact fun c hc => hrule c hc

/-- What a conditional becomes where it is assigned to. -/
theorem sound_assignment {e : Ending} : Sound text (fun c =>
    match conditional g e c with
    | some ([left], d) =>
      if !assignable.contains left.kind then some ([left], d)
      else if d.skip.punctuator == "=" then
        around "assignment_expression" "left" left [punct "=", inField "right" (g.sub (.expression e))] d
      else if assignmentMarks.contains d.skip.punctuator then
        around "augmented_assignment_expression" "left" left
          [inField "operator" (punct d.skip.punctuator), inField "right" (g.sub (.expression e))] d
      else some ([left], d)
    | other => other) := by
  intro c hc
  dsimp only
  split
  · next left d heq =>
    obtain ⟨hd, hns⟩ := sound_conditional hg c hc _ d heq
    have hleft := hns left List.mem_cons_self
    have hplain : Sound text (around "assignment_expression" "left" left [punct "=", inField "right" (g.sub (.expression e))]) :=
      .around rfl hleft ⟨.punct, .inField (hg.sub _)⟩
    have haugmented (mark : String) : Sound text (around "augmented_assignment_expression" "left" left
        [inField "operator" (punct mark), inField "right" (g.sub (.expression e))]) :=
      .around rfl hleft ⟨.inField .punct, .inField (hg.sub _)⟩
    refine .ite (.node hd hleft) ?_
    exact .ite (hplain d hd) (.ite (haugmented _ d hd) (.node hd hleft))
  · exact sound_conditional hg c hc

theorem sound_expression {e : Ending} : Sound text (expression g e) := by
  intro c hc
  have hstart := hc.skipToOperand (c.rest.length + 1)
  have hpattern : Sound text (rule "assignment_expression"
      [inField "left" (destructuring g), punct "=", inField "right" (g.sub (.expression e))]) :=
    .rule rfl ⟨.inField (sound_destructuring hg), .punct, .inField (hg.sub _)⟩
  have hbraced {plain : Parser} (hplain : Sound text plain) : Sound text (firstOf [rule "assignment_expression"
      [inField "left" (destructuring g), punct "=", inField "right" (g.sub (.expression e))], plain]) :=
    .firstOf ⟨hpattern, hplain⟩
  unfold expression
  dsimp only
  refine .ite (hbraced (sound_assignment hg) _ hstart) ?_
  exact .ite (sound_yieldExpression hg _ hstart) (sound_assignment hg _ hstart)

/-! ## Statements -/

omit hg in
theorem sound_comment : Sound text comment := by
  intro c hc
  unfold comment
  dsimp only
  split
  · exact Sound.taking _ _ _ _ hc.skipBlanks
  · split
    · exact Sound.taking _ _ _ _ hc.skipBlanks
    · exact .fails

theorem sound_condition : Sound text (condition g) := .rule rfl ⟨.tok, sound_sequence hg, .tok⟩

theorem sound_statements : Sound text (statements g) := .many (.firstOf ⟨sound_comment, hg.sub _⟩)

theorem sound_block : Sound text (block g) := .rule rfl ⟨.tok, sound_statements hg, .tok⟩

theorem sound_declarator {e : Ending} : Sound text (declarator g e) :=
  .rule rfl ⟨
    .inField (sound_bindingTarget hg),
    .whenTyped (.inOrder ⟨.optional (.inOrder ⟨.punct, .ahead⟩), .inField (.optional (sound_typeMark hg))⟩) .nothing,
    .optional (sound_initialValue hg)⟩

omit hg in
theorem sound_declaring {kind : String} {keyword names : Parser} {finish : List Node → Parser}
    (hkind : Component.methodKinds.contains kind = false) (hkeyword : Sound text keyword) (hnames : Sound text names)
    (hfinish : ∀ ns, Sound text (finish ns)) : Sound text (declaring kind keyword names finish) := by
  have hparts : Sound text (inOrder [keyword, names]) := .inOrder ⟨hkeyword, hnames⟩
  intro c hc
  unfold declaring
  dsimp only
  split
  · exact .fails
  · next ns d heq =>
    obtain ⟨hd, hns⟩ := hparts c.skip hc.skip ns d heq
    split
    · exact .fails
    · next ms e heq' =>
      obtain ⟨he, hms⟩ := hfinish ns d hd ms e heq'
      exact .node he (.rule (by simpa using hkind) hc.skip.isCut he.isCut
        (fun n hn => (List.mem_append.1 hn).elim (hns n) (hms n)))

theorem sound_variableDeclaration {e : Ending} {finish : List Node → Parser} (hfinish : ∀ ns, Sound text (finish ns)) :
    Sound text (variableDeclaration g e finish) :=
  sound_declaring rfl .word (.separated (sound_declarator hg)) hfinish

theorem sound_lexicalDeclaration {e : Ending} {finish : List Node → Parser} (hfinish : ∀ ns, Sound text (finish ns)) :
    Sound text (lexicalDeclaration g e finish) :=
  sound_declaring rfl (.inField (.firstOf ⟨.word, .word⟩)) (.separated (sound_declarator hg)) hfinish

omit hg in
theorem sound_declarationEnd (ns : List Node) : Sound text (declarationEnd g ns) := .endAfter

theorem sound_functionDeclaration : Sound text (functionDeclaration g) := by
  have hrule : Sound text (firstOf [
      rule "generator_function_declaration" [optional (word "async"), word "function", tok "*",
        inField "name" (identifier g), callSignature g true, inField "body" (g.sub .block)],
      rule "function_declaration" [optional (word "async"), word "function",
        inField "name" (identifier g), callSignature g true, inField "body" (g.sub .block)],
      g.whenTyped (rule "function_signature" [optional (word "async"), word "function",
        inField "name" (identifier g), callSignature g true, endAfter g false]) failing]) :=
    .firstOf ⟨
      .rule rfl ⟨.optional .word, .word, .tok, .inField .identifier, sound_callSignature hg, .inField (hg.sub _)⟩,
      .rule rfl ⟨.optional .word, .word, .inField .identifier, sound_callSignature hg, .inField (hg.sub _)⟩,
      .whenTyped (.rule rfl ⟨.optional .word, .word, .inField .identifier, sound_callSignature hg, .endAfter⟩) .failing⟩
  exact hrule

theorem sound_interfaceDeclaration : Sound text (interfaceDeclaration g) :=
  .rule rfl ⟨.word, .inField .typeIdentifier,
    .inField (.optional (sound_typeParameters hg)),
    .optional (.rule rfl ⟨.word, .separated (.inField (sound_namedType hg))⟩),
    .inField (sound_objectType hg rfl)⟩

theorem sound_typeAlias : Sound text (typeAlias g) :=
  .rule rfl ⟨.word, .inField .typeIdentifier, .inField (.optional (sound_typeParameters hg)), .punct,
    .inField (hg.sub _), .endAfter⟩

theorem sound_enumDeclaration : Sound text (enumDeclaration g) :=
  .rule rfl ⟨.optional .word, .word, .inField .identifier,
    .inField (.rule rfl ⟨.tok,
      .listed (.firstOf ⟨
        .rule rfl ⟨.inField (sound_propertyName hg), sound_initialValue hg⟩,
        .inField (sound_propertyName hg)⟩),
      .tok⟩)⟩

omit hg in
theorem sound_dottedName : Sound text (dottedName g) :=
  .thenGrowing .identifier (fun _ hn => .around rfl hn ⟨.punct, .inField .nameOf⟩)

theorem sound_namespaceDeclaration : Sound text (namespaceDeclaration g) :=
  .rule rfl ⟨.word, .inField (.firstOf ⟨sound_string, sound_dottedName⟩), .inField (.optional (hg.sub _))⟩

theorem sound_moduleDeclaration : Sound text (moduleDeclaration g) :=
  .rule rfl ⟨.word, .inField (.firstOf ⟨sound_string, sound_dottedName⟩), .inField (.optional (hg.sub _))⟩

omit hg in
theorem sound_importAlias : Sound text (importAlias g) := .rule rfl ⟨.word, .identifier, .punct, sound_dottedName, .endAfter⟩

theorem sound_ambient : Sound text (declaration.ambient g) :=
  .rule rfl ⟨.word, .firstOf ⟨
    .inOrder ⟨.word, hg.sub _⟩,
    .inOrder ⟨.word, .punct, .nameOf, .tok, hg.sub _, .endAfter⟩,
    .inOrder ⟨.ahead, hg.sub _⟩⟩⟩

omit hg in
/-- The rules for typed sources stand behind the others. -/
theorem Sound.plainThenTyped {ps qs : List Parser} {typed : Bool} (hps : ps.Forall (Sound text))
    (hqs : qs.Forall (Sound text)) : Sound text (Grammar.firstOf (if typed then ps ++ qs else ps)) := by
  refine .firstOf ?_
  split
  · exact List.forall_append.2 ⟨hps, hqs⟩
  · exact hps

theorem sound_declaration : Sound text (declaration g) := by
  intro c hc
  unfold declaration
  split
  · exact .ite (sound_classDeclaration hg c hc) .fails
  · refine Sound.plainThenTyped ?_ ?_ c hc
    -- by the word that the declaration begins with
    · split
      · exact sound_functionDeclaration hg
      · exact sound_functionDeclaration hg
      · exact sound_classDeclaration hg
      · exact sound_variableDeclaration hg sound_declarationEnd
      · exact sound_lexicalDeclaration hg sound_declarationEnd
      · exact ⟨.whenTyped (sound_enumDeclaration hg) .failing, sound_lexicalDeclaration hg sound_declarationEnd⟩
      · trivial
    · split
      · exact sound_classDeclaration hg
      · exact sound_interfaceDeclaration hg
      · exact sound_typeAlias hg
      · exact sound_enumDeclaration hg
      · exact sound_namespaceDeclaration hg
      · exact sound_moduleDeclaration hg
      · exact sound_importAlias
      · exact sound_ambient hg
      · trivial

/-! ## Imports and exports -/

omit hg in
theorem sound_exchangedName : Sound text (exchangedName g) := .firstOf ⟨sound_string, .identifier, .nameOf⟩

omit hg in
theorem sound_typeMarker : Sound text (typeMarker g) :=
  .whenTyped (.optional (.inOrder ⟨.firstOf ⟨.word, .word⟩, .ahead⟩)) .nothing

omit hg in
theorem sound_importSpecifier : Sound text (importSpecifier g) :=
  .firstOf ⟨
    .rule rfl ⟨sound_typeMarker, .inField (.firstOf ⟨sound_string, .nameOf⟩), .word, .inField .identifier⟩,
    .rule rfl ⟨sound_typeMarker, .inField .identifier⟩,
    .rule rfl ⟨.inField (.firstOf ⟨sound_string, .nameOf⟩), .word, .inField .identifier⟩,
    .rule rfl (Sound.inField .identifier)⟩

omit hg in
theorem sound_importClause : Sound text (importClause g) := by
  have hnamespace : Sound text (rule "namespace_import" [punct "*", word "as", identifier g]) :=
    .rule rfl ⟨.punct, .word, .identifier⟩
  have hnamed : Sound text (rule "named_imports" [tok "\x7b", listed "," (importSpecifier g), tok "\x7d"]) :=
    .rule rfl ⟨.tok, .listed sound_importSpecifier, .tok⟩
  exact .rule rfl (Sound.firstOf ⟨hnamespace, hnamed,
    .inOrder ⟨.identifier, .optional (.inOrder ⟨.tok, .firstOf ⟨hnamespace, hnamed⟩⟩)⟩⟩)

omit hg in
theorem sound_fromClause : Sound text fromClause := .inOrder ⟨.word, .inField sound_string⟩

theorem sound_importAttribute : Sound text (importAttribute g) :=
  .optional (.rule rfl ⟨.firstOf ⟨.word, .word⟩, sound_object hg⟩)

theorem sound_importStatement : Sound text (importStatement g) := by
  have htail : Sound text (inOrder [importAttribute g, endAfter g false]) := .inOrder ⟨sound_importAttribute hg, .endAfter⟩
  have hrequired : Sound text (rule "import_require_clause" [identifier g, punct "=", word "require", tok "(",
      inField "source" string, tok ")"]) := .rule rfl ⟨.identifier, .punct, .word, .tok, .inField sound_string, .tok⟩
  exact .firstOf ⟨
    .rule rfl ⟨.word, .inField sound_string, htail⟩,
    .rule rfl ⟨.word, sound_importClause, sound_fromClause, htail⟩,
    .whenTyped (.rule rfl ⟨.word, .firstOf ⟨.word, .word⟩, sound_importClause, sound_fromClause, htail⟩) .failing,
    .whenTyped (.rule rfl ⟨.word, .optional .word, hrequired, htail⟩) .failing⟩

omit hg in
theorem sound_exportClause : Sound text (exportClause g) :=
  .rule rfl ⟨.tok,
    .listed (.firstOf ⟨
      .rule rfl ⟨sound_typeMarker, .inField sound_exchangedName, .optional (.inOrder ⟨.word, .inField sound_exchangedName⟩)⟩,
      .rule rfl ⟨.inField sound_exchangedName, .optional (.inOrder ⟨.word, .inField sound_exchangedName⟩)⟩⟩),
    .tok⟩

theorem sound_exportStatement : Sound text (exportStatement g) :=
  .firstOf ⟨
    .rule rfl ⟨.word, .punct, sound_fromClause, .endAfter⟩,
    .rule rfl ⟨.word, .rule rfl ⟨.punct, .word, sound_exchangedName⟩, sound_fromClause, .endAfter⟩,
    .rule rfl ⟨.word, sound_exportClause, .optional sound_fromClause, .endAfter⟩,
    .whenTyped (.rule rfl ⟨.word, .word, sound_exportClause, .optional sound_fromClause, .endAfter⟩) .failing,
    .whenTyped (.rule rfl ⟨.word, .punct, hg.sub _, .terminator⟩) .failing,
    .whenTyped (.rule rfl ⟨.word, .word, .word, .identifier, .endAfter⟩) .failing,
    .rule rfl ⟨sound_decorators hg, .word, .word, .inField (sound_declaration hg)⟩,
    .rule rfl ⟨sound_decorators hg, .word, .word, .inField (hg.sub _), .terminator⟩,
    .rule rfl ⟨sound_decorators hg, .word, .inField (sound_declaration hg)⟩⟩

/-! ## Control flow -/

theorem sound_ifStatement : Sound text (ifStatement g) :=
  .rule rfl ⟨.word, .inField (sound_condition hg), .inField (hg.sub _), .inField (.optional (.rule rfl ⟨.word, hg.sub _⟩))⟩

theorem sound_switchStatement : Sound text (switchStatement g) :=
  .rule rfl ⟨.word, .inField (sound_condition hg),
    .inField (.rule rfl ⟨.tok,
      .many (.firstOf ⟨
        .rule rfl ⟨.word, .inField (sound_sequence hg), .tok, .inField (sound_statements hg)⟩,
        .rule rfl ⟨.word, .tok, .inField (sound_statements hg)⟩⟩),
      .tok⟩)⟩

theorem sound_forInStatement : Sound text (forInStatement g) := by
  have hoperator : Sound text forInStatement.operator := .inField (.firstOf ⟨.word, .word⟩)
  have htarget : Sound text (inField "left" (bindingTarget g)) := .inField (sound_bindingTarget hg)
  exact .rule rfl ⟨.word, .optional .word, .tok,
    .firstOf ⟨
      .inOrder ⟨.inField .word, htarget, .optional (sound_initialValue hg), hoperator⟩,
      .inOrder ⟨.inField (.firstOf ⟨.word, .word⟩), htarget, hoperator⟩,
      .inOrder ⟨.inField (.firstOf ⟨sound_destructuring hg, sound_place hg, sound_condition hg⟩), hoperator⟩⟩,
    .inField (sound_sequence hg), .tok, .inField (hg.sub _)⟩

theorem sound_forStatement : Sound text (forStatement g) :=
  .rule rfl ⟨.word, .tok,
    .firstOf ⟨
      .inField (sound_variableDeclaration hg (fun _ => .tok)),
      .inField (sound_lexicalDeclaration hg (fun _ => .tok)),
      .inOrder ⟨.inField (sound_sequence hg), .tok⟩,
      .inField (.rule rfl Sound.tok)⟩,
    .firstOf ⟨
      .inOrder ⟨.inField (sound_sequence hg), .tok⟩,
      .inField (.rule rfl Sound.tok)⟩,
    .inField (.optional (sound_sequence hg)),
    .tok, .inField (hg.sub _)⟩

theorem sound_tryStatement : Sound text (tryStatement g) :=
  .rule rfl ⟨.word, .inField (hg.sub _),
    .inField (.optional (.rule rfl ⟨.word,
      .optional (.inOrder ⟨.tok, .inField (sound_bindingTarget hg),
        .inField (.whenTyped (.optional (sound_typeMark hg)) .nothing), .tok⟩),
      .inField (hg.sub _)⟩)),
    .inField (.optional (.rule rfl ⟨.word, .inField (hg.sub _)⟩))⟩

omit hg in
theorem sound_jump {kind keyword : String} (hkind : Component.methodKinds.contains kind = false) :
    Sound text (jump g kind keyword) := by
  have hlabel : Sound text (fun c => if c.breaksLine then nothing c
      else optional (inField "label" (nameOf "statement_identifier" (isBindingName g))) c) :=
    fun c hc => .ite (.skipped hc) (Sound.optional (.inField .nameOf) c hc)
  exact .rule hkind ⟨.word, hlabel, .endAfter⟩

theorem sound_returnStatement : Sound text (returnStatement g) := by
  have hvalue : Sound text (fun d => if Ending.statement.stopsAt g d then none else expressions g d) :=
    fun c hc => .ite .fails (sound_sequence hg c hc)
  have hrule : Sound text (firstOf [
      rule "return_statement" [word "return",
        fun d => if Ending.statement.stopsAt g d then none else expressions g d, terminator g],
      rule "return_statement" [word "return", endAfter g false]]) :=
    .firstOf ⟨.rule rfl ⟨.word, hvalue, .terminator⟩, .rule rfl ⟨.word, .endAfter⟩⟩
  exact hrule

theorem sound_keywordStatement (w : String) : (keywordStatement g w).Forall (Sound text) := by
  have hcondition : Sound text (condition g) := sound_condition hg
  unfold keywordStatement
  split
  · exact sound_exportStatement hg
  · exact sound_importStatement hg
  · exact sound_ifStatement hg
  · exact sound_switchStatement hg
  · exact ⟨sound_forInStatement hg, sound_forStatement hg⟩
  · exact Sound.rule rfl ⟨.word, .inField hcondition, .inField (hg.sub _)⟩
  · exact Sound.rule rfl ⟨.word, .inField (hg.sub _), .word, .inField hcondition, .optional .terminator⟩
  · exact sound_tryStatement hg
  · exact Sound.rule rfl ⟨.word, .inField hcondition, .inField (hg.sub _)⟩
  · exact sound_jump rfl
  · exact sound_jump rfl
  · exact Sound.rule rfl ⟨.word, .endAfter⟩
  · exact sound_returnStatement hg
  · exact Sound.rule rfl ⟨.word, sound_sequence hg, .terminator⟩
  · exact Sound.whenTyped (.rule rfl ⟨sound_namespaceDeclaration hg, .terminator⟩) .failing
  · trivial

theorem sound_labeledStatement : Sound text (labeledStatement g) :=
  .rule rfl ⟨.inField .nameOf, .tok, .inField (hg.sub _)⟩

theorem sound_expressionStatement : Sound text (expressionStatement g) := .rule rfl ⟨sound_sequence hg, .terminator⟩

theorem sound_statement : Sound text (statement g) := by
  have hdecorated : Sound text (firstOf [exportStatement g, classDeclaration g, expressionStatement g]) :=
    .firstOf ⟨sound_exportStatement hg, sound_classDeclaration hg, sound_expressionStatement hg⟩
  have hempty : Sound text (rule "empty_statement" [tok ";"]) := .rule rfl Sound.tok
  have hworded (w : String) : Sound text (firstOf (keywordStatement g w ++ [declaration g]
      ++ (if g.typed && statementWords.contains w then [] else [labeledStatement g, expressionStatement g]))) := by
    refine .firstOf (List.forall_append.2 ⟨List.forall_append.2 ⟨sound_keywordStatement hg w, sound_declaration hg⟩, ?_⟩)
    split
    · trivial
    · exact ⟨sound_labeledStatement hg, sound_expressionStatement hg⟩
  intro c hc
  have hstart := hc.skipToOperand (c.rest.length + 1)
  unfold statement
  dsimp only
  split
  · exact .fails
  · refine .ite (sound_block hg _ hstart) (.ite (hempty _ hstart) (.ite (hdecorated _ hstart) ?_))
    split
    · exact sound_expressionStatement hg _ hstart
    · exact hworded _ _ hstart

end

/-! ## Programs -/

theorem ne_nil_of_tok {s : String} {c d : Cursor} {ns : List Node} (h : tok s c = some (ns, d)) : ns ≠ [] := by
  unfold tok taking at h
  dsimp only at h
  split at h
  · cases h
    exact List.cons_ne_nil _ _
  · cases h

/-- What begins with a token is not empty. -/
theorem ne_nil_of_inOrder_tok {s : String} {ps : List Parser} {c d : Cursor} {ns : List Node}
    (h : inOrder (tok s :: ps) c = some (ns, d)) : ns ≠ [] := by
  cases htok : tok s c with
  | none => rw [inOrder_eq_none htok] at h; cases h
  | some r =>
    obtain ⟨rest, -, hr⟩ := Option.map_eq_some_iff.1 ((inOrder_cons htok ps).symm.trans h)
    cases hr
    exact List.append_ne_nil_of_left_ne_nil (ne_nil_of_tok htok) _

theorem makes_block (g : Rules) : Makes (fun n => n.children ≠ []) (block g) := by
  intro c ns d h n hn
  unfold block rule at h
  dsimp only at h
  split at h
  · cases h
  · next ms e heq =>
    cases h
    rw [List.mem_singleton.1 hn]
    exact ne_nil_of_inOrder_tok heq

theorem sound_step {g : Rules} (hg : SoundRules text g) : ∀ goal, Sound text (step g goal)
  | .statement => sound_statement hg
  | .block => sound_block hg
  | .expression _ => sound_expression hg
  | .operand _ _ => sound_operand hg
  | .unary _ => sound_unary hg
  | .newTarget => sound_newTarget hg
  | .pattern => sound_pattern hg
  | .typeTerm _ => sound_typeTerm hg
  | .primaryType _ => sound_primaryType hg
  | .element => sound_element hg

/-- **The rules for all goals are sound, at every depth.** -/
theorem soundRules (d : Dialect) : ∀ n, SoundRules text ⟨d, parseGoal d n⟩
  | 0 => ⟨fun _ => .failing, .failing⟩
  | n + 1 => ⟨sound_step (soundRules d n), makes_block _⟩

theorem sound_hashBang : Sound text hashBang := by
  intro c hc
  unfold hashBang
  dsimp only
  split
  · exact Sound.taking _ _ _ _ hc.skipBlanks
  · exact .fails

/-- **Every node of a tree that is read from a text is whole.** -/
theorem allWhole_of_parse {d : Dialect} {root : Node} (h : parse d text = some root) : AllWhole text root := by
  have hprogram : Sound text (rule "program" [optional hashBang, statements ⟨d, parseGoal d (depthFor text.length)⟩]) :=
    .rule rfl ⟨.optional sound_hashBang, sound_statements (soundRules d _)⟩
  unfold parse at h
  dsimp only at h
  split at h
  · next node c heq =>
    obtain ⟨-, hns⟩ := hprogram _ (isIn_start text) _ c heq
    split at h
    · cases h; exact hns _ List.mem_cons_self
    · cases h
  · cases h

end Grammar
end TagAlias
