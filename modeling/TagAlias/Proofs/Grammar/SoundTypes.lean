import TagAlias.Grammar.Types
import TagAlias.Proofs.Grammar.Sound
/-!
# Literals, patterns, signatures and types keep to the text

Each rule is sound if the goals are that it reaches (`SoundRules`), rule by rule in the order in which they are built from
each other.
-/
namespace TagAlias
namespace Grammar

variable {text : List Char}

/-! ## Pieces of known length -/

theorem Sound.run {kind : String} (length : Cursor → Nat) : Sound text (fun c =>
    match length c with
    | 0 => none
    | n => Grammar.taking kind true n c) := by
  intro c hc
  dsimp only
  split
  · exact .fails
  · exact Sound.taking _ _ _ c hc

theorem Sound.piece {kind : String} (length : Cursor → Option Nat) : Sound text (fun c =>
    match length c with
    | some n => Grammar.taking kind true n c
    | none => none) := by
  intro c hc
  dsimp only
  split
  · exact Sound.taking _ _ _ c hc
  · exact .fails

/-! ## Literals -/

theorem sound_number : Sound text number := fun _ hc => Sound.run (fun c => numberLength c.rest) _ hc.skip

theorem sound_stringPieces (isPlain : Char → Bool) : Sound text (stringPieces isPlain) :=
  .many (.firstOf ⟨.run _, .piece _⟩)

theorem Sound.tight {s : String} : Sound text (tight s) := by
  intro c hc
  unfold Grammar.tight
  split
  · exact Sound.taking _ _ _ c hc
  · exact .fails

theorem sound_quoted (q : Char) : Sound text (quoted q) := .rule rfl ⟨.tok, sound_stringPieces _, .tight⟩

theorem sound_string : Sound text string := .firstOf ⟨sound_quoted _, sound_quoted _⟩

theorem sound_regex : Sound text regex :=
  .rule rfl ⟨.tok, .inField (.run _), .tight, .inField (.optional (.run _))⟩

theorem sound_templatePieces {p : Parser} (hp : Sound text p) : Sound text (templatePieces p) := by
  refine .many (.firstOf ⟨.run _, .piece _, fun c hc => ?_⟩)
  dsimp only
  split
  · exact hp c hc
  · exact .fails

/-! ## Rules for goals -/

/-- The rules for all goals are sound, and a block is not empty. -/
structure SoundRules (text : List Char) (g : Rules) : Prop where
  sub : ∀ goal, Sound text (g.sub goal)
  block : Makes (fun n => n.children ≠ []) (g.sub .block)

theorem sound_privateName : Sound text privateName := by
  intro c hc
  unfold privateName
  dsimp only
  split
  · split
    · exact Sound.taking _ _ _ _ hc.skip
    · exact .fails
  · exact .fails

/-- A parser that goes on from the node that it has built, if that is a single one. -/
theorem Sound.andThen {p : Parser} {next : Node → Parser} (hp : Sound text p)
    (hnext : ∀ n, AllWhole text n → Sound text (next n)) : Sound text (fun c =>
      match p c with
      | some ([n], d) => next n d
      | other => other) := by
  intro c hc
  dsimp only
  split
  · next n d heq =>
    obtain ⟨hd, hns⟩ := hp c hc _ d heq
    exact hnext n (hns n List.mem_cons_self) d hd
  · exact hp c hc

theorem Sound.self {n : Node} (hn : AllWhole text n) : Sound text (fun d => some ([n], d)) := fun _ hd => .node hd hn

theorem Sound.modifier {p : Parser} (hp : Sound text p) : Sound text (modifier p) := by
  intro c hc
  unfold Grammar.modifier
  split
  · next ns d heq =>
    obtain ⟨hd, hns⟩ := hp c hc ns d heq
    split
    · split
      · exact .fails
      · exact .yields hd hns
    · exact .fails
  · exact .fails

theorem Makes.modifier {P : Node → Prop} {p : Parser} (hp : Makes P p) : Makes P (modifier p) := by
  intro c ns d h
  unfold Grammar.modifier at h
  split at h
  · next ms e heq =>
    split at h
    · split at h
      · cases h
      · cases h; exact hp c _ _ heq
    · cases h
  · cases h

theorem sound_accessibility : Sound text accessibility := .rule rfl (.firstOf ⟨.word, .word, .word⟩)

theorem sound_overriding : Sound text overriding := .rule rfl .word

section

variable {g : Rules} (hg : SoundRules text g)

include hg

theorem sound_inner : Sound text g.inner := hg.sub _

/-! ## Names and patterns -/

theorem sound_computedName : Sound text (computedName g) := .rule rfl ⟨.tok, sound_inner hg, .tok⟩

theorem sound_propertyName : Sound text (propertyName g) :=
  .firstOf ⟨.nameOf, sound_privateName, sound_string, sound_number, sound_computedName hg⟩

theorem sound_initialValue {e : Ending} : Sound text (initialValue g e) := .inOrder ⟨.punct, .inField (hg.sub _)⟩

theorem sound_withDefault {kind : String} {left : Parser} (hkind : Component.methodKinds.contains kind = false)
    (hleft : Sound text left) : Sound text (withDefault g kind left) :=
  hleft.andThen (fun _ hn => .firstOf ⟨.around hkind hn ⟨.punct, .inField (sound_inner hg)⟩, .self hn⟩)

theorem sound_restPattern : Sound text (restPattern g) := .rule rfl ⟨.tok, hg.sub _⟩

theorem sound_objectPattern : Sound text (objectPattern g) :=
  .rule rfl ⟨.tok,
    .withHoles (.firstOf ⟨
      sound_restPattern hg,
      .rule rfl ⟨.inField (sound_propertyName hg), .tok, .inField (sound_withDefault hg rfl (hg.sub _))⟩,
      sound_withDefault hg rfl .nameOf⟩),
    .tok⟩

theorem sound_arrayPattern : Sound text (arrayPattern g) :=
  .rule rfl ⟨.tok, .withHoles (sound_withDefault hg rfl (hg.sub _)), .tok⟩

theorem sound_destructuring : Sound text (destructuring g) := .firstOf ⟨sound_objectPattern hg, sound_arrayPattern hg⟩

theorem sound_place : Sound text (place g) :=
  .thenGrowing (.firstOf ⟨.nameOf, .rule rfl .word⟩) (fun _ hn => .firstOf ⟨
    .around rfl hn ⟨.punct, .inField .nameOf⟩,
    .around rfl hn ⟨.punct, .inField sound_privateName⟩,
    .around rfl hn ⟨.tok, .inField (sound_inner hg), .tok⟩⟩)

theorem sound_pattern : Sound text (pattern g) := .firstOf ⟨sound_destructuring hg, sound_restPattern hg, sound_place hg⟩

theorem sound_bindingTarget : Sound text (bindingTarget g) := .firstOf ⟨sound_destructuring hg, .identifier⟩

/-! ## Types beside names -/

theorem sound_typeArguments : Sound text (typeArguments g) :=
  .rule rfl ⟨.tok, .separated (hg.sub _), .optional .tok, .tok⟩

theorem sound_typeParameters : Sound text (typeParameters g) :=
  .rule rfl ⟨.tok,
    .separated (.rule rfl ⟨
      .optional (.inOrder ⟨.ahead, .word⟩),
      .inField .typeIdentifier,
      .inField (.optional (.rule rfl ⟨.word, hg.sub _⟩)),
      .inField (.optional (.rule rfl ⟨.punct, hg.sub _⟩))⟩),
    .optional .tok, .tok⟩

theorem sound_typeMark {line : Bool} : Sound text (typeMark g line) := .rule rfl ⟨.tok, hg.sub _⟩

theorem sound_typePredicate {line : Bool} : Sound text (typePredicate g line) :=
  .rule rfl ⟨.inField (.firstOf ⟨.rule rfl .word, .identifier⟩), .word, .inField (hg.sub _)⟩

theorem sound_assertion {line : Bool} : Sound text (assertion g line) :=
  .rule rfl ⟨.word, .firstOf ⟨sound_typePredicate hg, .rule rfl .word, .identifier⟩⟩

theorem sound_resultMark {line : Bool} : Sound text (resultMark g line) :=
  .firstOf ⟨.rule rfl ⟨.tok, sound_assertion hg⟩, .rule rfl ⟨.tok, sound_typePredicate hg⟩, sound_typeMark hg⟩

/-! ## Decorators and parameters -/

theorem sound_arguments : Sound text (arguments g) :=
  .rule rfl ⟨.tok, .withHoles (.firstOf ⟨.rule rfl ⟨.tok, sound_inner hg⟩, sound_inner hg⟩), .tok⟩

theorem sound_decorator : Sound text (decorator g) :=
  .rule rfl ⟨.tok, .firstOf ⟨
    .rule rfl ⟨.tok, sound_inner hg, .tok⟩,
    .thenGrowing .nameOf (fun _ hn => .firstOf ⟨
      .around rfl hn ⟨.punct, .inField .nameOf⟩,
      .around rfl hn ⟨.inField (.whenTyped (.optional (sound_typeArguments hg)) .nothing), .inField (sound_arguments hg)⟩⟩)⟩⟩

theorem sound_decorators : Sound text (decorators g) := .many (.inField (sound_decorator hg))

theorem sound_typedParameter : Sound text (typedParameter g) := by
  have hparts : Sound text (inOrder [inOrder [decorators g,
      many (modifier (firstOf [accessibility, overriding, word "readonly"])),
      inField "pattern" (firstOf [typedParameter.nodeThis, g.sub .pattern])], optional (tok "?"),
      inOrder [inField "type" (optional (typeMark g false)), optional (initialValue g .bracket)]]) :=
    .inOrder ⟨
      .inOrder ⟨sound_decorators hg,
        .many (.modifier (.firstOf ⟨sound_accessibility, sound_overriding, .word⟩)),
        .inField (.firstOf ⟨.inOrder ⟨.ahead, .rule rfl .word⟩, hg.sub _⟩)⟩,
      .optional .tok,
      .inOrder ⟨.inField (.optional (sound_typeMark hg)), .optional (sound_initialValue hg)⟩⟩
  intro c hc
  unfold typedParameter
  dsimp only
  split
  · exact .fails
  · next ns d heq =>
    obtain ⟨hd, hns⟩ := hparts c.skip hc.skip ns d heq
    refine .node hd (.rule ?_ hc.skip.isCut hd.isCut hns)
    split <;> decide

theorem sound_parameter : Sound text (parameter g) :=
  .whenTyped (sound_typedParameter hg) (sound_withDefault hg rfl (hg.sub _))

theorem sound_formalParameters : Sound text (formalParameters g) := .rule rfl ⟨.tok, .listed (sound_parameter hg), .tok⟩

theorem sound_callSignature {line : Bool} : Sound text (callSignature g line) :=
  .whenTyped
    (.inOrder ⟨.inField (.optional (sound_typeParameters hg)), .inField (sound_formalParameters hg),
      .inField (.optional (sound_resultMark hg))⟩)
    (.inField (sound_formalParameters hg))

omit hg in
theorem makes_callSignature {line : Bool} : Makes IsFilled (callSignature g line) :=
  .whenTyped (.inOrder ⟨.inField (by decide), .inField (by decide), .inField (by decide)⟩) (.inField (by decide))

/-! ## Types -/

omit hg in
theorem sound_predefinedType : Sound text predefinedType := by
  refine .rule rfl (.firstOf ((List.forall_cons _ _ _).2 ⟨.inOrder ⟨.word, .word⟩, List.forall_iff_forall_mem.2 ?_⟩))
  intro p hp
  obtain ⟨w, -, rfl⟩ := List.mem_map.1 hp
  exact .word

omit hg in
theorem allWhole_nest : ∀ (ns : List Node) {m : Node}, AllWhole text m → (∀ n ∈ ns, AllWhole text n) →
    AllWhole text (namedType.nest m ns)
  | [], m, hm, _ => hm
  | [_], m, hm, _ => hm
  | [dot, t], m, hm, hns => by
    obtain ⟨hdot, ht, -⟩ := List.forall_mem_cons.1 hns |>.imp_right List.forall_mem_cons.1
    exact .rule (by decide) hm.self.start ht.self.stop (by simpa using ⟨hm.inField _, hdot, ht.inField _⟩)
  | dot :: p :: n :: r, m, hm, hns => by
    obtain ⟨hdot, hp, hr⟩ := List.forall_mem_cons.1 hns |>.imp_right List.forall_mem_cons.1
    refine allWhole_nest (n :: r) ?_ hr
    exact .rule (by decide) hm.self.start hp.self.stop (by simpa using ⟨hm.inField _, hdot, hp.inField _⟩)

omit hg in
theorem sound_qualified : Sound text (namedType.qualified g) := by
  have hparts : Sound text (inOrder [identifier g, punct ".", many (inOrder [identifier g, punct "."]), typeIdentifier g]) :=
    .inOrder ⟨.identifier, .punct, .many (.inOrder ⟨.identifier, .punct⟩), .typeIdentifier⟩
  intro c hc
  unfold namedType.qualified
  split
  · next m ns d heq =>
    obtain ⟨hd, hns⟩ := hparts c hc _ d heq
    obtain ⟨hm, hns⟩ := List.forall_mem_cons.1 hns
    exact .node hd (allWhole_nest ns hm hns)
  · exact .fails

theorem sound_namedType : Sound text (namedType g) := by
  have hplain : Sound text (firstOf [namedType.qualified g, typeIdentifier g]) := .firstOf ⟨sound_qualified, .typeIdentifier⟩
  intro c hc
  unfold namedType
  dsimp only
  split
  · next n d heq =>
    obtain ⟨hd, hns⟩ := hplain c hc _ d heq
    have hn := hns n List.mem_cons_self
    have hrest : Sound text (firstOf [around "generic_type" "name" n [inField "type_arguments" (typeArguments g)],
        fun d => some ([n], d)]) := .firstOf ⟨.around rfl hn (Sound.inField (sound_typeArguments hg)), .self hn⟩
    exact hrest d hd
  · exact .fails

theorem sound_indexSignature {line : Bool} : Sound text (indexSignature g line) :=
  .rule rfl ⟨
    .optional (.inOrder ⟨.inField (.optional (.firstOf ⟨.punct, .punct⟩)), .word⟩),
    .tok,
    .firstOf ⟨
      .inOrder ⟨.inField .nameOf, .tok, .inField (hg.sub _)⟩,
      .rule rfl ⟨.inField .typeIdentifier, .word, .inField (hg.sub _),
        .optional (.inOrder ⟨.word, .inField (hg.sub _)⟩)⟩⟩,
    .tok,
    .inField (.firstOf ⟨.rule rfl ⟨.tok, hg.sub _⟩, .rule rfl ⟨.tok, hg.sub _⟩, .rule rfl ⟨.tok, hg.sub _⟩, sound_typeMark hg⟩)⟩

omit hg in
theorem sound_memberModifiers : Sound text memberModifiers :=
  .many (.modifier (.firstOf ⟨sound_accessibility, sound_overriding, .word, .word, .word, .word, .word⟩))

omit hg in
theorem makes_memberModifiers : Makes IsFilled memberModifiers :=
  .many (.modifier (.firstOf ⟨.rule, .rule, .word, .word, .word, .word, .word⟩))

theorem sound_typeMember : Sound text (typeMember g) :=
  .firstOf ⟨
    sound_indexSignature hg,
    .rule rfl ⟨.optional .word, .word, .inField (.optional (sound_typeParameters hg)), .inField (sound_formalParameters hg),
      .inField (.optional (sound_typeMark hg))⟩,
    .rule rfl (sound_callSignature hg),
    .method ⟨sound_memberModifiers, .optional .punct, .inField (sound_propertyName hg), .optional .tok,
        sound_callSignature hg⟩
      ⟨makes_memberModifiers, .optional .punct, .inField (by decide), .optional .tok, makes_callSignature⟩,
    .rule rfl ⟨sound_memberModifiers, .inField (sound_propertyName hg), .optional .tok,
      .inField (.optional (sound_typeMark hg))⟩⟩

theorem sound_objectType {kind : String} (hkind : Component.methodKinds.contains kind = false) :
    Sound text (objectType g kind) :=
  .rule hkind ⟨.tok, .optional (.firstOf ⟨.tok, .tok⟩),
    .many (.inOrder ⟨sound_typeMember hg, .firstOf ⟨.tok, .endAfter⟩⟩), .optional (sound_typeMember hg), .tok⟩

/-! ## Compound types -/

theorem sound_functionType {line : Bool} : Sound text (functionType g line) :=
  .rule rfl ⟨.inField (.optional (sound_typeParameters hg)), .inField (sound_formalParameters hg), .punct,
    .inField (.firstOf ⟨sound_assertion hg, sound_typePredicate hg, hg.sub _⟩)⟩

theorem sound_constructorType {line : Bool} : Sound text (constructorType g line) :=
  .rule rfl ⟨.optional .word, .word, .inField (.optional (sound_typeParameters hg)), .inField (sound_formalParameters hg),
    .punct, .inField (hg.sub _)⟩

theorem sound_tupleType : Sound text (tupleType g) :=
  .rule rfl ⟨.tok,
    .listed (.firstOf ⟨
      .rule rfl ⟨.inField (.firstOf ⟨.rule rfl ⟨.tok, .identifier⟩, .identifier⟩), .inField (sound_typeMark hg)⟩,
      .rule rfl ⟨.inField .identifier, .tok, .inField (sound_typeMark hg)⟩,
      .rule rfl ⟨.tok, hg.sub _⟩,
      .rule rfl ⟨hg.sub _, .tok⟩,
      hg.sub _⟩),
    .tok⟩

omit hg in
theorem sound_literalType : Sound text literalType :=
  .rule rfl (.firstOf ⟨
    .rule rfl ⟨.inField (.firstOf ⟨.punct, .punct⟩), .inField sound_number⟩,
    sound_number, sound_string, .rule rfl .word, .rule rfl .word, .rule rfl .word, .rule rfl .word⟩)

theorem sound_typeQuery : Sound text (typeQuery g) :=
  .rule rfl ⟨.word, .thenGrowing
    (.firstOf ⟨.rule rfl .word, .rule rfl ⟨.rule rfl .word, sound_arguments hg⟩, .nameOf⟩)
    (fun _ hn => .firstOf ⟨
      .around rfl hn ⟨.punct, .inField (.firstOf ⟨.nameOf, sound_privateName⟩)⟩,
      .around rfl hn ⟨.tok, .inField (.firstOf ⟨sound_string, sound_number⟩), .tok⟩,
      .around rfl hn (.inField (sound_typeArguments hg))⟩)⟩

theorem sound_templateType : Sound text (templateType g) :=
  .rule rfl ⟨.tok, sound_templatePieces (.rule rfl ⟨.tok, hg.sub _, .tok⟩), .tight⟩

omit hg in
theorem sound_predefinedAlone : Sound text primaryType.predefinedAlone := by
  intro c hc
  unfold primaryType.predefinedAlone
  split
  · next ns d heq =>
    obtain ⟨hd, hns⟩ := sound_predefinedType c hc ns d heq
    split
    · exact .fails
    · exact .yields hd hns
  · exact .fails

omit hg in
theorem sound_sameLine {line : Bool} : Sound text (primaryType.sameLine line) := by
  intro c hc
  unfold primaryType.sameLine
  split
  · exact .fails
  · exact .skipped hc

theorem sound_primaryType {line : Bool} : Sound text (primaryType g line) :=
  .thenGrowing
    (.firstOf ⟨
      .rule rfl ⟨.tok, hg.sub _, .tok⟩,
      sound_objectType hg rfl, sound_tupleType hg, sound_literalType, sound_templateType hg,
      sound_typeQuery hg,
      .inOrder ⟨.ahead, .rule rfl ⟨.word, hg.sub _⟩⟩,
      .rule rfl .word,
      .inOrder (.rule rfl ⟨.rule rfl .word, sound_arguments hg⟩),
      sound_predefinedAlone, sound_namedType hg,
      .rule rfl .tok,
      .rule rfl ⟨.tok, hg.sub _⟩⟩)
    (fun _ hn => .firstOf ⟨
      .inOrder ⟨sound_sameLine, .around rfl hn ⟨.tok, .tok⟩⟩,
      .inOrder ⟨sound_sameLine, .around rfl hn ⟨.tok, hg.sub _, .tok⟩⟩,
      .inOrder ⟨.ahead, .around rfl hn ⟨.punct, .inField .nameOf⟩⟩⟩)

theorem sound_unaryType {line : Bool} : Sound text (unaryType g line) :=
  .firstOf ⟨
    .inOrder ⟨.ahead, sound_functionType hg⟩,
    .inOrder ⟨.ahead, sound_constructorType hg⟩,
    .inOrder ⟨.ahead, .rule rfl ⟨.word, hg.sub _⟩⟩,
    .inOrder ⟨.ahead, .rule rfl ⟨.word, .typeIdentifier, .optional (.inOrder ⟨.word, hg.sub _⟩)⟩⟩,
    hg.sub _⟩

omit hg in
theorem sound_marked {kind mark : String} {operand : Parser} (hkind : Component.methodKinds.contains kind = false)
    (hoperand : Sound text operand) : Sound text (marked kind mark operand) :=
  .thenGrowing (.firstOf ⟨.rule hkind ⟨.punct, hoperand⟩, hoperand⟩) (fun _ hn => .around hkind hn ⟨.punct, hoperand⟩)

theorem sound_unionType {line : Bool} : Sound text (unionType g line) :=
  sound_marked rfl (sound_marked rfl (sound_unaryType hg))

theorem sound_typeTerm {line : Bool} : Sound text (typeTerm g line) := by
  intro c hc
  unfold typeTerm
  split
  · next left d heq =>
    obtain ⟨hd, hns⟩ := sound_unionType hg c hc _ d heq
    have hleft := hns left List.mem_cons_self
    split
    · exact .node hd hleft
    · have hrest : Sound text (firstOf [
          around "conditional_type" "left" left [word "extends", inField "right" (unionType g false), tok "?",
            inField "consequence" (g.sub (.typeTerm false)), tok ":", inField "alternative" (g.sub (.typeTerm line))],
          fun c => some ([left], c)]) :=
        .firstOf ⟨.around rfl hleft ⟨.word, .inField (sound_unionType hg), .tok, .inField (hg.sub _), .tok,
          .inField (hg.sub _)⟩, .self hleft⟩
      exact hrest d hd
  · exact sound_unionType hg c hc

end

end Grammar
end TagAlias
