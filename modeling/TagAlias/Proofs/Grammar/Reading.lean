import TagAlias.Grammar.Program
/-!
# What a parser does at a cursor

A parser either fails, or passes on without taking anything, or reaches some rest of the text (`Reaches`), perhaps with a
single node (`Yields`).  Here stands, combinator by combinator, which of these follows from what the parts do, and then
the same for gaps and tokens.
-/
namespace TagAlias
namespace Grammar

/-! ## Parsers that fail -/

theorem inOrder_eq_none {p : Parser} {c : Cursor} (h : p c = none) (ps : List Parser) : inOrder (p :: ps) c = none := by
  rw [inOrder, h]

theorem inOrder_cons {p : Parser} {c d : Cursor} {ns : List Node} (h : p c = some (ns, d)) (ps : List Parser) :
    inOrder (p :: ps) c = (inOrder ps d).map (fun r => (ns ++ r.1, r.2)) := by
  rw [inOrder, h]
  cases hrest : inOrder ps d with
  | none => simp only [hrest, Option.map_none]
  | some r => simp only [hrest, Option.map_some]

theorem firstOf_eq_none {c : Cursor} : ∀ {ps : List Parser}, (∀ p ∈ ps, p c = none) → firstOf ps c = none
  | [], _ => rfl
  | p :: ps, h => by
    rw [firstOf, h p List.mem_cons_self]
    exact firstOf_eq_none (fun q hq => h q (List.mem_cons_of_mem _ hq))

theorem firstOf_cons_of_none {p : Parser} {c : Cursor} (h : p c = none) (ps : List Parser) :
    firstOf (p :: ps) c = firstOf ps c := by
  rw [firstOf, h]

theorem firstOf_cons_of_some {p : Parser} {c : Cursor} {a : List Node × Cursor} (h : p c = some a) (ps : List Parser) :
    firstOf (p :: ps) c = some a := by
  rw [firstOf, h]

theorem optional_eq_nil {p : Parser} {c : Cursor} (h : p c = none) : optional p c = some ([], c) := by
  unfold optional
  rw [h]

theorem repeatUpTo_eq_nil {p : Parser} {c : Cursor} (h : p c = none) : ∀ n, repeatUpTo n p c = some ([], c)
  | 0 => by rw [repeatUpTo.eq_def]
  | n + 1 => by
    rw [repeatUpTo.eq_def]
    simp only [h]

theorem many_eq_nil {p : Parser} {c : Cursor} (h : p c = none) : many p c = some ([], c) := repeatUpTo_eq_nil h _

theorem many_eq_one {p : Parser} {c d : Cursor} {ns : List Node} (h : p c = some (ns, d)) (hmoves : c.offset < d.offset)
    (hstops : p d = none) : many p c = some (ns, d) := by
  rw [many, repeatUpTo.eq_def]
  simp only [h, if_neg (Nat.not_le.2 hmoves), repeatUpTo_eq_nil hstops, List.append_nil]

theorem rule_eq_none {c : Cursor} {ps : List Parser} (h : inOrder ps c.skip = none) (kind : String) :
    rule kind ps c = none := by
  unfold rule
  simp only [h]

theorem rule_eq_some {c d : Cursor} {ps : List Parser} {ns : List Node} (h : inOrder ps c.skip = some (ns, d))
    (kind : String) : ∃ n, rule kind ps c = some ([n], d) := by
  unfold rule
  simp only [h]
  exact ⟨_, rfl⟩

theorem inField_eq_none {p : Parser} {c : Cursor} (h : p c = none) (f : String) : inField f p c = none := by
  unfold inField
  rw [h]

theorem inField_eq_some {p : Parser} {c d : Cursor} {ns : List Node} (h : p c = some (ns, d)) (f : String) :
    inField f p c = some (ns.map (·.inField f), d) := by
  unfold inField
  rw [h]

theorem around_eq_none {c : Cursor} {ps : List Parser} (h : inOrder ps c = none) (kind f : String) (left : Node) :
    around kind f left ps c = none := by
  unfold around
  rw [h]

theorem whenTyped_eq_none {p : Parser} {c : Cursor} (h : p c = none) (g : Rules) : g.whenTyped p failing c = none := by
  unfold Rules.whenTyped
  split
  · exact h
  · rfl

theorem ahead_eq_none {test : Cursor → Bool} {c : Cursor} (h : test c.skip = false) : ahead test c = none := by
  unfold ahead
  rw [h]; rfl

theorem thenGrowing_eq_none {p : Parser} {c : Cursor} (h : p c = none) (step : Node → Parser) :
    thenGrowing p step c = none := by
  unfold thenGrowing
  rw [h]

theorem growing_eq_self {step : Node → Parser} {left : Node} {c : Cursor} (h : step left c = none) :
    ∀ n, growing step n left c = (left, c)
  | 0 => rfl
  | n + 1 => by rw [growing, h]

/-! ## Parsers that go on -/

/-- The parser goes on from the cursor until `r` is left. -/
def Reaches (p : Parser) (c : Cursor) (r : List Char) : Prop :=
  ∃ ns off, c.offset ≤ off ∧ p c = some (ns, ⟨r, off⟩)

/-- The same, and what it has built is one node. -/
def Yields (p : Parser) (c : Cursor) (r : List Char) : Prop :=
  ∃ n off, c.offset ≤ off ∧ p c = some ([n], ⟨r, off⟩)

theorem Yields.reaches {p : Parser} {c : Cursor} {r : List Char} (h : Yields p c r) : Reaches p c r := by
  obtain ⟨n, off, hle, hsome⟩ := h
  exact ⟨[n], off, hle, hsome⟩

section

variable {p : Parser} {ps : List Parser} {c : Cursor} {r s : List Char}

theorem Reaches.of_nil (h : p c = some ([], c)) : Reaches p c c.rest := ⟨[], c.offset, Nat.le_refl _, h⟩

theorem Reaches.inOrder_nil : Reaches (inOrder []) c c.rest := .of_nil rfl

theorem Reaches.inOrder_cons (h : Reaches p c r) (hrest : ∀ off, Reaches (inOrder ps) ⟨r, off⟩ s) :
    Reaches (inOrder (p :: ps)) c s := by
  obtain ⟨ns, off, hle, hsome⟩ := h
  obtain ⟨ms, off', hle', hrest⟩ := hrest off
  refine ⟨ns ++ ms, off', Nat.le_trans hle hle', ?_⟩
  rw [Grammar.inOrder_cons hsome, hrest, Option.map_some]

theorem Reaches.inOrder_eq_none (h : Reaches p c r) (hrest : ∀ off, inOrder ps ⟨r, off⟩ = none) :
    inOrder (p :: ps) c = none := by
  obtain ⟨ns, off, -, hsome⟩ := h
  rw [Grammar.inOrder_cons hsome, hrest off, Option.map_none]

theorem Reaches.inField (h : Reaches p c r) (f : String) : Reaches (inField f p) c r := by
  obtain ⟨ns, off, hle, hsome⟩ := h
  exact ⟨_, off, hle, inField_eq_some hsome f⟩

theorem Reaches.optional (h : Reaches p c r) : Reaches (optional p) c r := by
  obtain ⟨ns, off, hle, hsome⟩ := h
  refine ⟨ns, off, hle, ?_⟩
  unfold Grammar.optional
  rw [hsome]

theorem Reaches.rule {d : Cursor} (hskip : c.skip = d) (hle : c.offset ≤ d.offset) (h : Reaches (inOrder ps) d r)
    (kind : String) : Yields (rule kind ps) c r := by
  obtain ⟨ns, off, hle', hsome⟩ := h
  rw [← hskip] at hsome
  obtain ⟨n, hn⟩ := rule_eq_some hsome kind
  exact ⟨n, off, Nat.le_trans hle hle', hn⟩

theorem Reaches.around (h : Reaches (inOrder ps) c r) (kind f : String) (left : Node) :
    Yields (around kind f left ps) c r := by
  obtain ⟨ns, off, hle, hsome⟩ := h
  exact ⟨_, off, hle, by unfold Grammar.around; rw [hsome]⟩

theorem Yields.firstOf_cons (h : Yields p c r) : Yields (firstOf (p :: ps)) c r := by
  obtain ⟨n, off, hle, hsome⟩ := h
  exact ⟨n, off, hle, firstOf_cons_of_some hsome ps⟩

/-- An operand after which nothing goes on. -/
theorem Yields.thenGrowing {step : Node → Parser} (h : Yields p c r) (hstops : ∀ left off, step left ⟨r, off⟩ = none) :
    Yields (thenGrowing p step) c r := by
  obtain ⟨n, off, hle, hsome⟩ := h
  refine ⟨n, off, hle, ?_⟩
  unfold Grammar.thenGrowing
  rw [hsome]
  simp only [growing_eq_self (hstops n off)]

/-- An operand that one step goes on with, and no further one. -/
theorem Yields.thenGrowing_once {step : Node → Parser} (h : Yields p c r)
    (hstep : ∀ left off, Yields (step left) ⟨r, off⟩ s) (hstops : ∀ left off, step left ⟨s, off⟩ = none) :
    Yields (Grammar.thenGrowing p step) c s := by
  obtain ⟨n, off, hle, hsome⟩ := h
  obtain ⟨m, off', hle', hm⟩ := hstep n off
  refine ⟨m, off', Nat.le_trans hle hle', ?_⟩
  unfold Grammar.thenGrowing
  rw [hsome]
  simp only [growing, hm, growing_eq_self (hstops m off')]

end

/-! ## Gaps -/

def isSolid (d : Char) : Bool := !isBlank d && d != '/'

-- The general equation of `skipGap` is too large to be generated, so its recursion is opened here.
theorem skipGap_solid {d : Char} (h : isSolid d = true) (r : List Char) (off : Nat) :
    skipGap .between (d :: r) off = some ⟨d :: r, off⟩ := by
  rw [isSolid, Bool.and_eq_true, Bool.not_eq_true', bne_iff_ne] at h
  have hslash : (d == '/') = false := beq_eq_false_iff_ne.2 h.2
  delta skipGap skipGap._f
  dsimp only
  rw [h.1, if_neg Bool.false_ne_true, hslash, if_neg Bool.false_ne_true]

theorem skipGap_blank {d : Char} (h : isBlank d = true) (r : List Char) (off : Nat) :
    skipGap .between (d :: r) off = skipGap .between r (off + d.utf8Size) := by
  delta skipGap skipGap._f
  dsimp only
  rw [h, if_pos rfl]

theorem skipGap_line (d : Char) (r : List Char) (off : Nat) :
    skipGap .line (d :: r) off = skipGap (if endsLine d then .between else .line) r (off + d.utf8Size) := rfl

theorem skipGap_block {d : Char} (h : d ≠ '*') (r : List Char) (off : Nat) :
    skipGap .block (d :: r) off = skipGap .block r (off + d.utf8Size) := by
  delta skipGap skipGap._f
  dsimp only
  rw [beq_false_of_ne h, if_neg Bool.false_ne_true]

theorem skipGap_block_star {r : List Char} (h : ∀ s, r ≠ '/' :: s) (off : Nat) :
    skipGap .block ('*' :: r) off = skipGap .block r (off + 1) := by
  delta skipGap skipGap._f
  dsimp only
  rw [if_pos (beq_self_eq_true '*')]
  split
  · exact absurd rfl (h _)
  · rfl

theorem skipGap_block_close (r : List Char) (off : Nat) :
    skipGap .block ('*' :: '/' :: r) off = skipGap .between r (off + 2) := rfl

theorem skipGap_slash {r : List Char} (hline : ∀ s, r ≠ '/' :: s) (hblock : ∀ s, r ≠ '*' :: s) (off : Nat) :
    skipGap .between ('/' :: r) off = some ⟨'/' :: r, off⟩ := by
  delta skipGap skipGap._f
  dsimp only
  rw [if_neg (by decide), if_pos (beq_self_eq_true '/')]
  split
  · exact absurd rfl (hline _)
  · exact absurd rfl (hblock _)
  · rfl

theorem skipGap_line_open (r : List Char) (off : Nat) :
    skipGap .between ('/' :: '/' :: r) off = skipGap .line r (off + 2) := rfl

theorem skipGap_block_open (r : List Char) (off : Nat) :
    skipGap .between ('/' :: '*' :: r) off = match skipGap .block r (off + 2) with
      | some d => some d
      | none => some ⟨'/' :: '*' :: r, off⟩ := rfl

theorem skip_solid {d : Char} (h : isSolid d = true) (r : List Char) (off : Nat) :
    (⟨d :: r, off⟩ : Cursor).skip = ⟨d :: r, off⟩ := by
  rw [Cursor.skip, skipGap_solid h]; rfl

theorem skip_blank {d : Char} (h : isSolid d = true) (r : List Char) (off : Nat) :
    (⟨' ' :: d :: r, off⟩ : Cursor).skip = ⟨d :: r, off + 1⟩ := by
  rw [Cursor.skip, skipGap_blank (by decide), skipGap_solid h]; rfl

theorem skipToOperand_of_skip {c d : Cursor} (hskip : c.skip = d) (hcomment : markupCommentLength d.rest = none) :
    ∀ n, skipToOperand n c = d
  | 0 => hskip
  | n + 1 => by simp only [skipToOperand, hskip, hcomment]

/-! ## Tokens -/

theorem taking_yields {c : Cursor} {n : Nat} {r : List Char} (h : c.rest.drop n = r) (kind : String) (named : Bool) :
    Yields (taking kind named n) c r := by
  exact ⟨_, c.offset + byteLength (c.rest.take n), Nat.le_add_right _ _, by rw [taking, leafNode, Cursor.forward, h]⟩

theorem tok_yields {s : String} {c : Cursor} {r : List Char} {off : Nat} (hskip : c.skip = ⟨s.toList ++ r, off⟩)
    (hle : c.offset ≤ off) : Yields (tok s) c r := by
  have hfits : s.toList.isPrefixOf (s.toList ++ r) = true := List.isPrefixOf_iff_prefix.2 (List.prefix_append _ _)
  obtain ⟨n, off', hle', hsome⟩ := taking_yields (c := ⟨s.toList ++ r, off⟩) (n := s.length) (List.drop_left' rfl) s false
  refine ⟨n, off', Nat.le_trans hle hle', ?_⟩
  unfold tok
  simp only [hskip, hfits, if_true, hsome]

theorem punct_yields {s : String} {c : Cursor} {r : List Char} {off : Nat} (hskip : c.skip = ⟨s.toList ++ r, off⟩)
    (hle : c.offset ≤ off) (hwhole : (⟨s.toList ++ r, off⟩ : Cursor).punctuator = s) : Yields (punct s) c r := by
  obtain ⟨n, off', hle', hsome⟩ := taking_yields (c := ⟨s.toList ++ r, off⟩) (n := s.length) (List.drop_left' rfl) s false
  refine ⟨n, off', Nat.le_trans hle hle', ?_⟩
  unfold punct
  simp only [hskip, hwhole, beq_self_eq_true, if_true, hsome]

section

variable {c : Cursor} {d : Char} {r : List Char} (hrest : c.skip.rest = d :: r)

include hrest

theorem tok_eq_none {s : String} (h : ∀ t, s.toList ≠ d :: t) (hs : s.toList ≠ []) : tok s c = none := by
  have hbegins : s.toList.isPrefixOf c.skip.rest = false := by
    cases hlist : s.toList with
    | nil => exact absurd hlist hs
    | cons e t =>
      have hne : e ≠ d := fun he => h t (by rw [hlist, he])
      rw [hrest, List.isPrefixOf, beq_eq_false_iff_ne.2 hne, Bool.false_and]
  unfold tok
  simp only [hbegins, Bool.false_eq_true, if_false]

/-- The punctuator at a cursor begins with the character there. -/
theorem exists_punctuator : ∃ t, c.skip.punctuator.toList = d :: t := by
  have hlong : ∀ p ∈ longPunctuators, p ≠ [] := by decide +kernel
  have hfound : ∀ p, longPunctuators.find? (·.isPrefixOf c.skip.rest) = some p → ∃ t, p = d :: t := by
    intro p hp
    have hfits : p.isPrefixOf c.skip.rest = true := List.find?_some (p := fun q : List Char => q.isPrefixOf c.skip.rest) hp
    have hbegins := List.isPrefixOf_iff_prefix.1 hfits
    cases p with
    | nil => exact absurd rfl (hlong [] (List.mem_of_find?_eq_some hp))
    | cons e t =>
      rw [hrest] at hbegins
      exact ⟨t, by rw [(List.cons_prefix_cons.1 hbegins).1]⟩
  unfold Cursor.punctuator
  split
  · next hnil => rw [hnil] at hrest; cases hrest
  · next e r' hquestion =>
    obtain ⟨rfl, -⟩ := List.cons.inj (hquestion.symm.trans hrest)
    split
    · exact ⟨[], by decide⟩
    · exact ⟨['.'], by decide⟩
  · next e r' _ hcons =>
    obtain ⟨rfl, -⟩ := List.cons.inj (hcons.symm.trans hrest)
    split
    · next p hp =>
      rw [String.toList_ofList]
      exact hfound p hp
    · exact ⟨[], String.toList_ofList⟩

theorem punct_eq_none {s : String} (h : ∀ t, s.toList ≠ d :: t) : punct s c = none := by
  obtain ⟨t, ht⟩ := exists_punctuator hrest
  have hne : c.skip.punctuator ≠ s := fun he => h t (by rw [← he, ht])
  unfold punct
  simp only [beq_eq_false_iff_ne.2 hne, Bool.false_eq_true, if_false]

end

/-- One of a list, with no separator behind it. -/
theorem Reaches.separated {p : Parser} {c : Cursor} {d : Char} {r : List Char} (h : Reaches p c (d :: r))
    (hd : isSolid d = true) {s : String} (hs : ∀ t, s.toList ≠ d :: t) (hnil : s.toList ≠ []) :
    Reaches (separated s p) c (d :: r) := by
  refine h.inOrder_cons (fun off => ?_)
  have hrest : (⟨d :: r, off⟩ : Cursor).skip.rest = d :: r := by rw [skip_solid hd]
  have hnone := many_eq_nil (Grammar.inOrder_eq_none (tok_eq_none hrest hs hnil) [p])
  exact (Reaches.of_nil hnone).inOrder_cons (fun _ => .inOrder_nil)

/-- A character stands alone if no longer punctuator begins with it and the next one. -/
theorem punctuator_eq {d e : Char} (h : ∀ p ∈ longPunctuators, p.take 2 ≠ [d, e]) (hd : d ≠ '?') (r : List Char)
    (off : Nat) : (⟨d :: e :: r, off⟩ : Cursor).punctuator = String.ofList [d] := by
  have hlong : ∀ p ∈ longPunctuators, 2 ≤ p.length := by decide +kernel
  have hnone : longPunctuators.find? (·.isPrefixOf (d :: e :: r)) = none := by
    refine List.find?_eq_none.2 (fun p hp hfits => h p hp ?_)
    obtain ⟨t, ht⟩ := List.isPrefixOf_iff_prefix.1 hfits
    have htake := congrArg (List.take 2) ht
    rwa [List.take_append_of_le_length (hlong p hp)] at htake
  unfold Cursor.punctuator
  split
  · next hnil => cases hnil
  · next hquestion => exact absurd (List.cons.inj hquestion).1 hd
  · next hcons =>
    obtain ⟨rfl, rfl⟩ := List.cons.inj hcons
    simp only [hnone]

/-! ## Words -/

theorem nameOf_eq_none {kind : String} {test : String → Bool} {c : Cursor} {t : String} {n : Nat}
    (hname : c.skip.name? = some (t, n)) (h : test t = false) : nameOf kind test c = none := by
  unfold nameOf
  simp only [hname, h, Bool.false_eq_true, if_false]

theorem word_eq_none {w : String} {c : Cursor} {t : String} {n : Nat} (hname : c.skip.name? = some (t, n)) (h : t ≠ w) :
    word w c = none := by
  unfold word
  simp only [hname, beq_eq_false_iff_ne.2 h, Bool.false_eq_true, if_false]

theorem nextName_eq {c : Cursor} {t : String} {n : Nat} (hname : c.skip.name? = some (t, n)) : c.nextName = some t := by
  rw [Cursor.nextName, hname]; rfl

end Grammar
end TagAlias
