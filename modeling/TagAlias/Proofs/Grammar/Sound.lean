import TagAlias.Component.Method
import TagAlias.Proofs.Grammar.Reading
import TagAlias.Proofs.Syntax.Preorder
import Mathlib.Data.List.Basic
/-!
# Parsers that keep to the text

A parser is sound for a text (`Sound`) if from a cursor in the text it reaches none but cursors in the text, and all nodes
that it builds are whole: they begin and end between two characters, and a method has no empty body.  Here stands,
combinator by combinator, that soundness of the parts makes the whole sound, and then the same for gaps and tokens.
-/
namespace TagAlias
namespace Grammar

/-! ## Places in a text -/

theorem foldl_utf8Size (cs : List Char) (n : Nat) : cs.foldl (fun n c => n + c.utf8Size) n = n + byteLength cs := by
  induction cs generalizing n with
  | nil => rfl
  | cons c cs ih => rw [byteLength, List.foldl_cons, List.foldl_cons, ih, ih, Nat.zero_add, Nat.add_assoc]

@[simp] theorem byteLength_nil : byteLength [] = 0 := rfl

theorem byteLength_cons (c : Char) (cs : List Char) : byteLength (c :: cs) = c.utf8Size + byteLength cs := by
  rw [byteLength, List.foldl_cons, foldl_utf8Size, Nat.zero_add]

theorem byteLength_append (cs ds : List Char) : byteLength (cs ++ ds) = byteLength cs + byteLength ds := by
  rw [byteLength, List.foldl_append, foldl_utf8Size]; rfl

/-- The bytes up to this offset are some first characters of the text. -/
def IsCut (text : List Char) (o : Nat) : Prop := ∃ before, before <+: text ∧ byteLength before = o

/-- What is left at the cursor is all of the text from its offset on. -/
def IsIn (text : List Char) (c : Cursor) : Prop := ∃ before, before ++ c.rest = text ∧ byteLength before = c.offset

variable {text : List Char}

theorem isIn_start (text : List Char) : IsIn text ⟨text, 0⟩ := ⟨[], rfl, rfl⟩

theorem IsIn.isCut {c : Cursor} (h : IsIn text c) : IsCut text c.offset := by
  obtain ⟨before, htext, hoffset⟩ := h
  exact ⟨before, ⟨c.rest, htext⟩, hoffset⟩

theorem IsIn.append {cs rest : List Char} {off : Nat} (h : IsIn text ⟨cs ++ rest, off⟩) :
    IsIn text ⟨rest, off + byteLength cs⟩ := by
  obtain ⟨before, htext, hoffset⟩ := h
  exact ⟨before ++ cs, by rw [List.append_assoc]; exact htext, by rw [byteLength_append, hoffset]⟩

theorem IsIn.cons {d : Char} {rest : List Char} {off : Nat} (h : IsIn text ⟨d :: rest, off⟩) :
    IsIn text ⟨rest, off + d.utf8Size⟩ := by
  have htail : IsIn text ⟨rest, off + byteLength [d]⟩ := h.append
  rwa [byteLength_cons, byteLength_nil, Nat.add_zero] at htail

theorem IsIn.forward {c : Cursor} (h : IsIn text c) (n : Nat) : IsIn text (c.forward n) := by
  have hsplit : IsIn text ⟨c.rest.take n ++ c.rest.drop n, c.offset⟩ := by rwa [List.take_append_drop]
  exact hsplit.append

/-! ## Gaps -/

-- The recursion is that of `skipGap`, which may take two characters at once.
theorem IsIn.skipGap : ∀ (gap : Gap) (cs : List Char) (off : Nat) {d : Cursor}, IsIn text ⟨cs, off⟩ →
    skipGap gap cs off = some d → IsIn text d
  | .between, [], off, d, hin, h => by cases h; exact hin
  | .line, [], off, d, hin, h => by cases h; exact hin
  | .block, [], off, d, hin, h => by cases h
  | .line, c :: r, off, d, hin, h => by
    rw [skipGap_line] at h
    exact IsIn.skipGap _ r _ hin.cons h
  | .block, c :: r, off, d, hin, h => by
    by_cases hstar : c = '*'
    · subst hstar
      by_cases hclose : ∃ s, r = '/' :: s
      · obtain ⟨s, rfl⟩ := hclose
        rw [skipGap_block_close] at h
        exact IsIn.skipGap _ s _ hin.cons.cons h
      · rw [skipGap_block_star (fun s hs => hclose ⟨s, hs⟩)] at h
        exact IsIn.skipGap _ r _ hin.cons h
    · rw [skipGap_block hstar] at h
      exact IsIn.skipGap _ r _ hin.cons h
  | .between, c :: r, off, d, hin, h => by
    by_cases hblank : isBlank c = true
    · rw [skipGap_blank hblank] at h
      exact IsIn.skipGap _ r _ hin.cons h
    by_cases hslash : c = '/'
    · subst hslash
      by_cases hline : ∃ s, r = '/' :: s
      · obtain ⟨s, rfl⟩ := hline
        rw [skipGap_line_open] at h
        exact IsIn.skipGap _ s _ hin.cons.cons h
      by_cases hblock : ∃ s, r = '*' :: s
      · obtain ⟨s, rfl⟩ := hblock
        rw [skipGap_block_open] at h
        split at h
        · next e he =>
          cases h
          exact IsIn.skipGap _ s _ hin.cons.cons he
        · cases h; exact hin
      · rw [skipGap_slash (fun s hs => hline ⟨s, hs⟩) (fun s hs => hblock ⟨s, hs⟩)] at h
        cases h; exact hin
    · have hsolid : isSolid c = true := by simp [isSolid, hblank, hslash]
      rw [skipGap_solid hsolid] at h
      cases h; exact hin
termination_by _ cs => cs.length

theorem IsIn.skip {c : Cursor} (h : IsIn text c) : IsIn text c.skip := by
  unfold Cursor.skip
  cases hskip : Grammar.skipGap .between c.rest c.offset with
  | none => exact h
  | some d => exact h.skipGap _ _ _ hskip

theorem IsIn.skipBlanks {c : Cursor} (h : IsIn text c) : IsIn text c.skipBlanks := h.forward _

theorem IsIn.skipToOperand : ∀ (n : Nat) {c : Cursor}, IsIn text c → IsIn text (skipToOperand n c)
  | 0, c, h => h.skip
  | n + 1, c, h => by
    rw [Grammar.skipToOperand]
    split
    · next k _ => exact IsIn.skipToOperand n (h.skip.forward k)
    · exact h.skip

theorem IsIn.typedEnd {operand : Bool} : ∀ (n : Nat) {stop c d : Cursor}, IsIn text stop → IsIn text c →
    typedEnd operand n stop c = some d → IsIn text d
  | 0, _, _, _, _, _, h => by cases h
  | n + 1, stop, c, d, hstop, hc, h => by
    rw [Grammar.typedEnd] at h
    split at h
    · cases h; exact hstop
    · split at h
      · cases h; exact hstop
      · cases h
    · split at h
      · cases h; exact hstop
      · split at h
        · exact IsIn.typedEnd n hstop (hc.forward 1) h
        · split at h
          · next k _ => exact IsIn.typedEnd n (hc.forward k) (hc.forward k) h
          · cases h

theorem IsIn.plainEnd : ∀ (n : Nat) {stop c d : Cursor}, IsIn text stop → IsIn text c → plainEnd n stop c = some d →
    IsIn text d
  | 0, _, _, _, _, _, h => by cases h
  | n + 1, stop, c, d, hstop, hc, h => by
    rw [Grammar.plainEnd] at h
    split at h
    · cases h; exact hstop
    · split at h
      · cases h; exact hstop
      · split at h
        · split at h
          · cases h; exact hstop
          · cases h
        · split at h
          · exact IsIn.plainEnd n hstop (hc.forward 1) h
          · split at h
            · cases h
            · next k _ =>
              have he := hc.forward k
              dsimp only at h
              split at h
              · split at h
                · cases h; exact hstop
                · split at h
                  · exact IsIn.plainEnd n hstop he h
                  · exact IsIn.plainEnd n he he h
              · exact IsIn.plainEnd n he he h

theorem IsIn.impliedEnd {g : Rules} {operand : Bool} {c d : Cursor} (hc : IsIn text c)
    (h : impliedEnd g operand c = some d) : IsIn text d := by
  unfold Grammar.impliedEnd at h
  split at h
  · exact hc.typedEnd _ hc h
  · exact hc.plainEnd _ hc h

/-! ## Whole nodes -/

/-- A node begins and ends between two characters, and as a method it has no empty body. -/
structure IsWhole (text : List Char) (n : Node) : Prop where
  start : IsCut text n.start
  stop : IsCut text n.stop
  body : n.kind ∈ Component.methodKinds → ∀ m ∈ n.children, m.field = "body" → m.children ≠ []

/-- A node and all below it are whole. -/
def AllWhole (text : List Char) (n : Node) : Prop := ∀ m ∈ n.preorder, IsWhole text m

theorem AllWhole.self {n : Node} (h : AllWhole text n) : IsWhole text n := h n n.self_mem_preorder

theorem AllWhole.mk {l : Label} {cs : List Node} (hself : IsWhole text (.mk l cs)) (hcs : ∀ n ∈ cs, AllWhole text n) :
    AllWhole text (.mk l cs) := by
  intro m hm
  rcases (Node.mem_preorder_iff _ _).1 hm with rfl | ⟨n, hn, hm⟩
  · exact hself
  · exact hcs n hn m hm

theorem AllWhole.inField {n : Node} (h : AllWhole text n) (f : String) : AllWhole text (n.inField f) := by
  cases n with
  | mk l cs =>
    have hself := h.self
    exact .mk ⟨hself.start, hself.stop, hself.body⟩
      (fun n hn m hm => h m (Node.preorder_trans _ (Node.mem_preorder_of_mem_children hn) hm))

/-- A node of another kind than methods. -/
theorem AllWhole.rule {kind : String} {start stop : Nat} {cs : List Node} (hkind : kind ∉ Component.methodKinds)
    (hstart : IsCut text start) (hstop : IsCut text stop) (hcs : ∀ n ∈ cs, AllWhole text n) :
    AllWhole text (.mk ⟨kind, start, stop, "", true, false⟩ cs) :=
  .mk ⟨hstart, hstop, fun h => absurd h hkind⟩ hcs

/-! ## Sound parsers -/

/-- What a parser has come to is in the text, and what it has built is whole. -/
def Built (text : List Char) (r : Option (List Node × Cursor)) : Prop :=
  ∀ ns d, r = some (ns, d) → IsIn text d ∧ ∀ n ∈ ns, AllWhole text n

theorem Built.fails : Built text none := fun _ _ h => by cases h

theorem Built.yields {ns : List Node} {d : Cursor} (hd : IsIn text d) (hns : ∀ n ∈ ns, AllWhole text n) :
    Built text (some (ns, d)) := fun _ _ h => by cases h; exact ⟨hd, hns⟩

theorem Built.skipped {d : Cursor} (hd : IsIn text d) : Built text (some ([], d)) := .yields hd (by simp)

theorem Built.node {n : Node} {d : Cursor} (hd : IsIn text d) (hn : AllWhole text n) : Built text (some ([n], d)) :=
  .yields hd (by simpa using hn)

theorem Built.ite {P : Prop} [Decidable P] {r s : Option (List Node × Cursor)} (hr : Built text r) (hs : Built text s) :
    Built text (if P then r else s) := by
  split
  · exact hr
  · exact hs

/-- From everywhere in the text a parser goes on in the text and builds what is whole. -/
def Sound (text : List Char) (p : Parser) : Prop := ∀ c, IsIn text c → Built text (p c)

theorem Sound.nothing : Sound text nothing := fun _ hc => .skipped hc

theorem Sound.failing : Sound text failing := fun _ _ => .fails

theorem Sound.taking (kind : String) (named : Bool) (n : Nat) : Sound text (taking kind named n) := fun c hc =>
  .node (hc.forward n) (.mk ⟨hc.isCut, (hc.forward n).isCut, fun _ m hm => absurd hm List.not_mem_nil⟩ (by simp))

section

variable {p : Parser} {ps : List Parser}

theorem Sound.inOrder : ∀ {ps : List Parser}, ps.Forall (Sound text) → Sound text (inOrder ps)
  | [], _, c, hc => .skipped hc
  | p :: ps, h, c, hc => by
    obtain ⟨hp, hps⟩ := (List.forall_cons _ _ _).1 h
    rw [Grammar.inOrder]
    split
    · exact .fails
    · next ns d heq =>
      obtain ⟨hd, hns⟩ := hp c hc ns d heq
      split
      · exact .fails
      · next ms e heq' =>
        obtain ⟨he, hms⟩ := Sound.inOrder hps d hd ms e heq'
        exact .yields he (fun n hn => (List.mem_append.1 hn).elim (hns n) (hms n))

theorem Sound.firstOf : ∀ {ps : List Parser}, ps.Forall (Sound text) → Sound text (firstOf ps)
  | [], _, c, _ => .fails
  | p :: ps, h, c, hc => by
    obtain ⟨hp, hps⟩ := (List.forall_cons _ _ _).1 h
    rw [Grammar.firstOf]
    split
    · next r heq => exact heq ▸ hp c hc
    · exact Sound.firstOf hps c hc

theorem Sound.optional (hp : Sound text p) : Sound text (optional p) := by
  intro c hc
  unfold Grammar.optional
  split
  · next r heq => exact heq ▸ hp c hc
  · exact .skipped hc

theorem Sound.repeatUpTo (hp : Sound text p) : ∀ n, Sound text (repeatUpTo n p)
  | 0, c, hc => by rw [Grammar.repeatUpTo]; exact .skipped hc
  | n + 1, c, hc => by
    rw [Grammar.repeatUpTo]
    split
    · exact .skipped hc
    · next ns d heq =>
      obtain ⟨hd, hns⟩ := hp c hc ns d heq
      split
      · exact .skipped hc
      · split
        · exact .yields hd hns
        · next ms e heq' =>
          obtain ⟨he, hms⟩ := Sound.repeatUpTo hp n d hd ms e heq'
          exact .yields he (fun n hn => (List.mem_append.1 hn).elim (hns n) (hms n))

theorem Sound.many (hp : Sound text p) : Sound text (many p) := fun c hc => hp.repeatUpTo _ c hc

theorem Sound.rule {kind : String} (hkind : Component.methodKinds.contains kind = false) (h : ps.Forall (Sound text)) :
    Sound text (rule kind ps) := by
  intro c hc
  unfold Grammar.rule
  dsimp only
  split
  · exact .fails
  · next ns d heq =>
    obtain ⟨hd, hns⟩ := Sound.inOrder h c.skip hc.skip ns d heq
    exact .node hd (.rule (by simpa using hkind) hc.skip.isCut hd.isCut hns)

theorem Sound.inField {f : String} (hp : Sound text p) : Sound text (inField f p) := by
  intro c hc
  unfold Grammar.inField
  split
  · exact .fails
  · next ns d heq =>
    obtain ⟨hd, hns⟩ := hp c hc ns d heq
    refine .yields hd (fun n hn => ?_)
    obtain ⟨m, hm, rfl⟩ := List.mem_map.1 hn
    exact (hns m hm).inField f

theorem Sound.around {kind f : String} {left : Node} (hkind : Component.methodKinds.contains kind = false)
    (hleft : AllWhole text left) (h : ps.Forall (Sound text)) : Sound text (around kind f left ps) := by
  intro c hc
  unfold Grammar.around
  split
  · exact .fails
  · next ns d heq =>
    obtain ⟨hd, hns⟩ := Sound.inOrder h c hc ns d heq
    exact .node hd (.rule (by simpa using hkind) hleft.self.start hd.isCut (List.forall_mem_cons.2 ⟨hleft.inField f, hns⟩))

theorem sound_growing {step : Node → Parser} (hstep : ∀ left, AllWhole text left → Sound text (step left)) :
    ∀ (n : Nat) {left : Node} {c : Cursor}, AllWhole text left → IsIn text c →
      IsIn text (growing step n left c).2 ∧ AllWhole text (growing step n left c).1
  | 0, left, c, hleft, hc => ⟨hc, hleft⟩
  | n + 1, left, c, hleft, hc => by
    rw [growing]
    split
    · next node d heq =>
      obtain ⟨hd, hns⟩ := hstep left hleft c hc _ d heq
      exact sound_growing hstep n (hns node List.mem_cons_self) hd
    · exact ⟨hc, hleft⟩

theorem Sound.thenGrowing {step : Node → Parser} (hp : Sound text p)
    (hstep : ∀ left, AllWhole text left → Sound text (step left)) : Sound text (thenGrowing p step) := by
  intro c hc
  unfold Grammar.thenGrowing
  split
  · next node d heq =>
    obtain ⟨hd, hns⟩ := hp c hc _ d heq
    obtain ⟨he, hnode⟩ := sound_growing hstep (d.rest.length + 1) (hns node List.mem_cons_self) hd
    exact .node he hnode
  · exact hp c hc

theorem Sound.ahead {test : Cursor → Bool} : Sound text (ahead test) := by
  intro c hc
  unfold Grammar.ahead
  split
  · exact .skipped hc
  · exact .fails

theorem Sound.whenTyped {q : Parser} {g : Rules} (hp : Sound text p) (hq : Sound text q) : Sound text (g.whenTyped p q) := by
  unfold Rules.whenTyped
  split
  · exact hp
  · exact hq

/-! ## Tokens -/

theorem Sound.tok {s : String} : Sound text (tok s) := by
  intro c hc
  unfold Grammar.tok
  dsimp only
  split
  · exact Sound.taking _ _ _ _ hc.skip
  · exact .fails

theorem Sound.punct {s : String} : Sound text (punct s) := by
  intro c hc
  unfold Grammar.punct
  dsimp only
  split
  · exact Sound.taking _ _ _ _ hc.skip
  · exact .fails

theorem Sound.word {w : String} : Sound text (word w) := by
  intro c hc
  unfold Grammar.word
  dsimp only
  split
  · split
    · exact Sound.taking _ _ _ _ hc.skip
    · exact .fails
  · exact .fails

theorem Sound.nameOf {kind : String} {test : String → Bool} : Sound text (nameOf kind test) := by
  intro c hc
  unfold Grammar.nameOf
  dsimp only
  split
  · split
    · exact Sound.taking _ _ _ _ hc.skip
    · exact .fails
  · exact .fails

theorem Sound.identifier {g : Rules} : Sound text (identifier g) := .nameOf

theorem Sound.typeIdentifier {g : Rules} : Sound text (typeIdentifier g) := .nameOf

theorem Sound.separated {sep : String} (hp : Sound text p) : Sound text (separated sep p) :=
  .inOrder ⟨hp, .many (.inOrder ⟨.tok, hp⟩)⟩

theorem Sound.listed {sep : String} (hp : Sound text p) : Sound text (listed sep p) :=
  .optional (.inOrder ⟨.separated hp, .optional .tok⟩)

theorem Sound.withHoles (hp : Sound text p) : Sound text (withHoles p) :=
  .inOrder ⟨.optional hp, .many (.inOrder ⟨.tok, .optional hp⟩)⟩

theorem Sound.endAfter {g : Rules} {operand : Bool} : Sound text (endAfter g operand) := by
  intro c hc
  unfold Grammar.endAfter
  split
  · next r heq => exact heq ▸ Sound.tok c hc
  · cases hend : impliedEnd g operand c with
    | none => exact .fails
    | some d => exact .skipped (hc.impliedEnd hend)

theorem Sound.terminator {g : Rules} : Sound text (terminator g) := .endAfter

end

/-! ## Nodes side by side -/

/-- All nodes that a parser builds side by side are of this sort. -/
def Makes (P : Node → Prop) (p : Parser) : Prop := ∀ c ns d, p c = some (ns, d) → ∀ n ∈ ns, P n

section

variable {P : Node → Prop} {p : Parser}

theorem Makes.nothing : Makes P nothing := fun _ _ _ h _ hn => by cases h; cases hn

theorem Makes.failing : Makes P failing := fun _ _ _ h => by cases h

theorem Makes.inOrder : ∀ {ps : List Parser}, ps.Forall (Makes P) → Makes P (inOrder ps)
  | [], _, c, ns, d, h => by cases h; simp
  | p :: ps, hps, c, ns, d, h => by
    obtain ⟨hp, hps⟩ := (List.forall_cons _ _ _).1 hps
    rw [Grammar.inOrder] at h
    split at h
    · cases h
    · next ns e heq =>
      split at h
      · cases h
      · next ms _ heq' =>
        cases h
        exact fun n hn => (List.mem_append.1 hn).elim (hp c ns e heq n) (Makes.inOrder hps e ms _ heq' n)

theorem Makes.firstOf : ∀ {ps : List Parser}, ps.Forall (Makes P) → Makes P (firstOf ps)
  | [], _, c, ns, d, h => by cases h
  | p :: ps, hps, c, ns, d, h => by
    obtain ⟨hp, hps⟩ := (List.forall_cons _ _ _).1 hps
    rw [Grammar.firstOf] at h
    split at h
    · next r heq => cases h; exact hp c ns d heq
    · exact Makes.firstOf hps c ns d h

theorem Makes.optional (hp : Makes P p) : Makes P (optional p) := by
  intro c ns d h
  unfold Grammar.optional at h
  split at h
  · next r heq => cases h; exact hp c ns d heq
  · cases h; simp

theorem Makes.repeatUpTo (hp : Makes P p) : ∀ n, Makes P (repeatUpTo n p)
  | 0, c, ns, d, h => by rw [Grammar.repeatUpTo] at h; cases h; simp
  | n + 1, c, ns, d, h => by
    rw [Grammar.repeatUpTo] at h
    split at h
    · cases h; simp
    · next ns e heq =>
      split at h
      · cases h; simp
      · split at h
        · cases h; exact hp c ns d heq
        · next ms _ heq' =>
          cases h
          exact fun n hn => (List.mem_append.1 hn).elim (hp c ns e heq n) (Makes.repeatUpTo hp _ e ms _ heq' n)

theorem Makes.many (hp : Makes P p) : Makes P (many p) := fun c => hp.repeatUpTo _ c

theorem Makes.whenTyped {q : Parser} {g : Rules} (hp : Makes P p) (hq : Makes P q) : Makes P (g.whenTyped p q) := by
  unfold Rules.whenTyped
  split
  · exact hp
  · exact hq

end

/-- What fills the field of a body is not empty. -/
def IsFilled (n : Node) : Prop := n.field = "body" → n.children ≠ []

section

variable {p : Parser} {ps : List Parser}

theorem Makes.inField {f : String} (hf : f ≠ "body") : Makes IsFilled (inField f p) := by
  intro c ns d h n hn
  unfold Grammar.inField at h
  split at h
  · cases h
  · cases h
    obtain ⟨m, -, rfl⟩ := List.mem_map.1 hn
    cases m
    exact fun hbody => absurd hbody hf

theorem Makes.body (hp : Makes (fun n => n.children ≠ []) p) : Makes IsFilled (Grammar.inField "body" p) := by
  intro c ns d h n hn
  unfold Grammar.inField at h
  split at h
  · cases h
  · next heq =>
    cases h
    obtain ⟨m, hm, rfl⟩ := List.mem_map.1 hn
    have hchildren := hp c _ _ heq m hm
    cases m
    exact fun _ => hchildren

/-- A node that fills no field yet. -/
theorem isFilled_of_field {l : Label} {cs : List Node} (h : l.field = "") : IsFilled (.mk l cs) :=
  fun hbody => absurd (h.symm.trans hbody) (by decide)

theorem Makes.taking {kind : String} {named : Bool} {n : Nat} : Makes IsFilled (taking kind named n) := by
  intro c ns d h m hm
  cases h
  rw [List.mem_singleton.1 hm]
  exact isFilled_of_field rfl

theorem Makes.rule {kind : String} : Makes IsFilled (rule kind ps) := by
  intro c ns d h m hm
  unfold Grammar.rule at h
  dsimp only at h
  split at h
  · cases h
  · cases h
    rw [List.mem_singleton.1 hm]
    exact isFilled_of_field rfl

theorem Makes.tok {s : String} : Makes IsFilled (tok s) := by
  intro c ns d h
  unfold Grammar.tok at h
  dsimp only at h
  split at h
  · exact Makes.taking _ ns d h
  · cases h

theorem Makes.punct {s : String} : Makes IsFilled (punct s) := by
  intro c ns d h
  unfold Grammar.punct at h
  dsimp only at h
  split at h
  · exact Makes.taking _ ns d h
  · cases h

theorem Makes.word {w : String} : Makes IsFilled (word w) := by
  intro c ns d h
  unfold Grammar.word at h
  dsimp only at h
  split at h
  · split at h
    · exact Makes.taking _ ns d h
    · cases h
  · cases h

/-- A method, whose body is not empty if it has one. -/
theorem Sound.method {kind : String} (h : ps.Forall (Sound text)) (hfilled : ps.Forall (Makes IsFilled)) :
    Sound text (Grammar.rule kind ps) := by
  intro c hc
  unfold Grammar.rule
  dsimp only
  split
  · exact .fails
  · next ns d heq =>
    obtain ⟨hd, hns⟩ := Sound.inOrder h c.skip hc.skip ns d heq
    exact .node hd (.mk ⟨hc.skip.isCut, hd.isCut, fun _ => Makes.inOrder hfilled _ _ _ heq⟩ hns)

end

end Grammar
end TagAlias
