import TagAlias.Message.Template
/-!
# How templates are written

A template is a row of pieces: characters, with braces doubled, and fields.  A field is written as its name, then the letter
of a form behind an exclamation mark, then a layout behind a colon, each of the two only if it is there.  The name ends where
outside of brackets a brace, a colon or an exclamation mark stands; in a layout as many braces close as open.  What is read
as a field is exactly what is written so (`field?_eq_some_iff`), and the pieces of a template end where no piece is written
any more (`pieces_eq_iff`).
-/
namespace TagAlias
namespace Template

/-! ## Names -/

/-- The name of a field.  Between brackets anything may stand but the bracket that closes. -/
inductive IsName : Str → Prop
  | nil : IsName []
  | char {c : CodePoint} {r : Str} (hc : c ∉ [.char '\x7b', .char '\x7d', .char ':', .char '!', .char '[']) (h : IsName r) :
      IsName (c :: r)
  | bracket {inner r : Str} (hinner : .char ']' ∉ inner) (h : IsName r) : IsName (.char '[' :: (inner ++ .char ']' :: r))

/-- The rest of a name from within brackets. -/
def IsNameIn (inBrackets : Bool) (w : Str) : Prop :=
  if inBrackets then ∃ inner r, .char ']' ∉ inner ∧ IsName r ∧ w = inner ++ .char ']' :: r else IsName w

/-- What ends a name. -/
def stops : Str := [.char '\x7d', .char ':', .char '!']

theorem IsNameIn.cons_bracket {c : CodePoint} {w : Str} (h : IsNameIn (c != ']') w) : IsNameIn true (c :: w) := by
  by_cases hc : c = ']'
  · subst hc
    exact ⟨[], w, by simp, h, rfl⟩
  · rw [bne_iff_ne.2 hc] at h
    obtain ⟨inner, r, hinner, hr, rfl⟩ := h
    exact ⟨c :: inner, r, by simp [hinner, Ne.symm hc], hr, rfl⟩

theorem IsNameIn.cons {c : CodePoint} {w : Str} (hc : c ∉ [.char '\x7b', .char '\x7d', .char ':', .char '!']) (h : IsNameIn (c == '[') w) :
    IsName (c :: w) := by
  by_cases hopens : c = '['
  · subst hopens
    obtain ⟨inner, r, hinner, hr, rfl⟩ := h
    exact .bracket hinner hr
  · rw [beq_eq_false_iff_ne.2 hopens] at h
    refine .char ?_ h
    simp only [List.mem_cons, List.not_mem_nil, or_false, not_or] at hc ⊢
    exact ⟨hc.1, hc.2.1, hc.2.2.1, hc.2.2.2, hopens⟩

/-- What is read as a name is one. -/
theorem isName_of_fieldName {name r : Str} {stop : CodePoint} : ∀ {cs : Str} {inBrackets : Bool} {done : Str},
    fieldName inBrackets done cs = some (name, stop, r) →
    ∃ w, IsNameIn inBrackets w ∧ stop ∈ stops ∧ cs = w ++ stop :: r ∧ name = done.reverse ++ w
  | [], _, _, h => by cases h
  | c :: cs, inBrackets, done, h => by
    rw [fieldName] at h
    by_cases hin : inBrackets = true
    · subst hin
      obtain ⟨w, hw, hstop, rfl, rfl⟩ := isName_of_fieldName h
      exact ⟨c :: w, hw.cons_bracket, hstop, rfl, by simp⟩
    · rw [Bool.not_eq_true] at hin
      subst hin
      rw [if_neg Bool.false_ne_true] at h
      split at h
      · cases h
      · next hopen =>
        split at h
        · next hends =>
          cases h
          exact ⟨[], .nil, by simpa [stops, or_assoc] using hends, rfl, by simp⟩
        · next hgoes =>
          obtain ⟨w, hw, hstop, rfl, rfl⟩ := isName_of_fieldName h
          simp only [beq_iff_eq, Bool.or_eq_true, not_or] at hopen hgoes
          exact ⟨c :: w, IsNameIn.cons (by simp [hopen, hgoes]) hw, hstop, rfl, by simp⟩

theorem fieldName_brackets (inner : Str) (h : .char ']' ∉ inner) (done cs : Str) :
    fieldName true done (inner ++ .char ']' :: cs) = fieldName false (.char ']' :: (inner.reverse ++ done)) cs := by
  induction inner generalizing done with
  | nil => rfl
  | cons c inner ih =>
    rw [List.mem_cons, not_or] at h
    rw [List.cons_append, fieldName, if_pos rfl, bne_iff_ne.2 (Ne.symm h.1), ih h.2]
    simp

/-- A name is read up to what ends it. -/
theorem fieldName_of_isName {w : Str} (h : IsName w) {stop : CodePoint} (hstop : stop ∈ stops) (done r : Str) :
    fieldName false done (w ++ stop :: r) = some (done.reverse ++ w, stop, r) := by
  induction h generalizing done with
  | nil =>
    simp only [stops, List.mem_cons, List.not_mem_nil, or_false] at hstop
    rcases hstop with rfl | rfl | rfl <;> simp [fieldName]
  | @char c w hc _ ih =>
    simp only [List.mem_cons, List.not_mem_nil, or_false, not_or] at hc
    rw [List.cons_append, fieldName]
    simp [hc, beq_eq_false_iff_ne.2 hc.2.2.2.2, ih]
  | @bracket inner w hinner _ ih =>
    rw [List.cons_append, fieldName]
    simp [fieldName_brackets inner hinner, ih]

/-! ## Layouts -/

/-- In every beginning at most `depth` more braces close than open, and in all of it just so many. -/
def Closes (depth : Nat) (w : Str) : Prop :=
  (∀ u, u <+: w → u.count (.char '\x7d') ≤ depth + u.count (.char '\x7b')) ∧ w.count (.char '\x7d') = depth + w.count (.char '\x7b')

/-- As many braces close as open, and none before it opens. -/
def Balanced (w : Str) : Prop := Closes 0 w

theorem closes_nil_iff {depth : Nat} : Closes depth [] ↔ depth = 0 := by
  simp [Closes, eq_comm]

theorem forall_prefix_cons_iff {P : Str → Prop} {c : CodePoint} {w : Str} :
    (∀ u, u <+: c :: w → P u) ↔ P [] ∧ ∀ u, u <+: w → P (c :: u) := by
  simp only [List.prefix_cons_iff]
  constructor
  · intro h
    exact ⟨h [] (.inl rfl), fun u hu => h (c :: u) (.inr ⟨u, rfl, hu⟩)⟩
  · rintro ⟨hnil, hcons⟩ u (rfl | ⟨u, rfl, hu⟩)
    · exact hnil
    · exact hcons u hu

theorem closes_open_iff {depth : Nat} {w : Str} : Closes depth (.char '\x7b' :: w) ↔ Closes (depth + 1) w := by
  rw [Closes, forall_prefix_cons_iff, Closes]
  simp [Nat.add_assoc, Nat.add_comm 1]

theorem closes_close_iff {depth : Nat} {w : Str} : Closes (depth + 1) (.char '\x7d' :: w) ↔ Closes depth w := by
  rw [Closes, forall_prefix_cons_iff, Closes]
  simp [Nat.add_right_comm depth 1]

theorem not_closes_close {w : Str} : ¬ Closes 0 (.char '\x7d' :: w) := by
  rintro ⟨h, -⟩
  simpa using h [.char '\x7d'] (by simp)

theorem closes_char_iff {depth : Nat} {c : CodePoint} {w : Str} (hopen : c ≠ '\x7b') (hclose : c ≠ '\x7d') :
    Closes depth (c :: w) ↔ Closes depth w := by
  rw [Closes, forall_prefix_cons_iff, Closes]
  simp [hopen, hclose]

/-- A layout is read up to the first brace that closes more than has been opened. -/
theorem layoutText_of_closes {w : Str} : ∀ {depth : Nat}, Closes depth w → ∀ done r : Str,
    layoutText depth done (w ++ .char '\x7d' :: r) = some (done.reverse ++ w, r) := by
  induction w with
  | nil =>
    intro depth h done r
    rw [closes_nil_iff] at h
    subst h
    simp [layoutText]
  | cons c w ih =>
    intro depth h done r
    rw [List.cons_append]
    unfold layoutText
    by_cases hopen : c = '\x7b'
    · subst hopen
      simp [ih (closes_open_iff.1 h)]
    · by_cases hclose : c = '\x7d'
      · subst hclose
        cases depth with
        | zero => exact absurd h not_closes_close
        | succ depth => simp [ih (closes_close_iff.1 h)]
      · simp [hopen, hclose, ih ((closes_char_iff hopen hclose).1 h)]

theorem closes_of_layoutText {layout r : Str} : ∀ {cs : Str} {depth : Nat} {done : Str},
    layoutText depth done cs = some (layout, r) →
      ∃ w, Closes depth w ∧ cs = w ++ .char '\x7d' :: r ∧ layout = done.reverse ++ w
  | [], _, _, h => by cases h
  | c :: cs, depth, done, h => by
    unfold layoutText at h
    by_cases hopen : c = '\x7b'
    · subst hopen
      obtain ⟨w, hw, rfl, rfl⟩ := closes_of_layoutText h
      exact ⟨.char '\x7b' :: w, closes_open_iff.2 hw, rfl, by simp⟩
    · rw [if_neg (by simpa using hopen)] at h
      by_cases hclose : c = '\x7d'
      · subst hclose
        rw [if_pos (beq_self_eq_true _)] at h
        cases depth with
        | zero =>
          cases h
          exact ⟨[], closes_nil_iff.2 rfl, rfl, by simp⟩
        | succ depth =>
          obtain ⟨w, hw, rfl, rfl⟩ := closes_of_layoutText h
          exact ⟨.char '\x7d' :: w, closes_close_iff.2 hw, rfl, by simp⟩
      · rw [if_neg (by simpa using hclose)] at h
        obtain ⟨w, hw, rfl, rfl⟩ := closes_of_layoutText h
        exact ⟨c :: w, (closes_char_iff hopen hclose).2 hw, rfl, by simp⟩

/-! ## Fields -/

/-- How a field is written, from behind the brace that opens it up to the one that closes it. -/
inductive Field.Spelled : Field → Str → Prop
  | plain {name : Str} (hname : IsName name) : Spelled ⟨name, none, []⟩ (name ++ [.char '\x7d'])
  | laid {name layout : Str} (hname : IsName name) (hlayout : Balanced layout) :
      Spelled ⟨name, none, layout⟩ (name ++ .char ':' :: (layout ++ [.char '\x7d']))
  | formed {name : Str} (hname : IsName name) (form : CodePoint) :
      Spelled ⟨name, some form, []⟩ (name ++ [.char '!', form, .char '\x7d'])
  | formedLaid {name layout : Str} (hname : IsName name) (form : CodePoint) (hlayout : Balanced layout) :
      Spelled ⟨name, some form, layout⟩ (name ++ .char '!' :: form :: .char ':' :: (layout ++ [.char '\x7d']))

theorem field?_of_spelled {f : Field} {w : Str} (h : f.Spelled w) (r : Str) : field? (w ++ r) = some (f, r) := by
  cases h with
  | @plain name hname =>
    rw [List.append_assoc, List.singleton_append, field?, fieldName_of_isName hname (by decide)]
    rfl
  | @laid name layout hname hlayout =>
    rw [List.append_assoc, List.cons_append, List.append_assoc, List.singleton_append, field?,
      fieldName_of_isName hname (by decide)]
    simp [layoutText_of_closes hlayout]
  | @formed name hname form =>
    rw [List.append_assoc, List.cons_append, field?, fieldName_of_isName hname (by decide)]
    rfl
  | @formedLaid name layout hname form hlayout =>
    rw [List.append_assoc, List.cons_append, List.cons_append, List.cons_append, List.append_assoc, List.singleton_append,
      field?, fieldName_of_isName hname (by decide)]
    simp [layoutText_of_closes hlayout]

/-- What is read as a layout is written with the brace that ends it. -/
theorem exists_layout {name : Str} {form : Option CodePoint} {f : Field} {cs r : Str}
    (h : (layoutText 0 [] cs).map (fun x => ((⟨name, form, x.1⟩ : Field), x.2)) = some (f, r)) :
    ∃ layout, Balanced layout ∧ f = ⟨name, form, layout⟩ ∧ cs = layout ++ .char '\x7d' :: r := by
  obtain ⟨⟨layout, r'⟩, htext, heq⟩ := Option.map_eq_some_iff.1 h
  obtain ⟨w, hw, rfl, rfl⟩ := closes_of_layoutText htext
  cases heq
  exact ⟨layout, hw, rfl, rfl⟩

theorem spelled_of_field? {f : Field} {cs r : Str} (h : field? cs = some (f, r)) : ∃ w, f.Spelled w ∧ cs = w ++ r := by
  unfold field? at h
  split at h
  · cases h
  · next name stop rest hname =>
    obtain ⟨_, hw, hstop, rfl, rfl⟩ := isName_of_fieldName hname
    simp only [stops, List.mem_cons, List.not_mem_nil, or_false] at hstop
    rcases hstop with rfl | rfl | rfl
    · cases h
      exact ⟨name ++ [.char '\x7d'], .plain hw, by simp⟩
    · obtain ⟨layout, hlayout, rfl, rfl⟩ := exists_layout h
      exact ⟨name ++ .char ':' :: (layout ++ [.char '\x7d']), .laid hw hlayout, by simp⟩
    · rw [if_neg (by decide), if_neg (by decide)] at h
      split at h
      · next form _ =>
        cases h
        exact ⟨name ++ [.char '!', form, .char '\x7d'], .formed hw form, by simp⟩
      · next form _ =>
        obtain ⟨layout, hlayout, rfl, rfl⟩ := exists_layout h
        exact ⟨name ++ .char '!' :: form :: .char ':' :: (layout ++ [.char '\x7d']), .formedLaid hw form hlayout, by simp⟩
      · cases h

/-- **What is read as a field is what is written as one.** -/
theorem field?_eq_some_iff {f : Field} {cs r : Str} : field? cs = some (f, r) ↔ ∃ w, f.Spelled w ∧ cs = w ++ r := by
  constructor
  · exact spelled_of_field?
  · rintro ⟨w, hw, rfl⟩
    exact field?_of_spelled hw r

/-! ## Pieces -/

/-- How a piece is written. -/
inductive Piece.Spelled : Piece → Str → Prop
  | openBrace : Spelled (.char '\x7b') [.char '\x7b', .char '\x7b']
  | closeBrace : Spelled (.char '\x7d') [.char '\x7d', .char '\x7d']
  | char {c : CodePoint} (hopen : c ≠ '\x7b') (hclose : c ≠ '\x7d') : Spelled (.char c) [c]
  | field {f : Field} {w : Str} (hfield : f.Spelled w) : Spelled (.field f) (.char '\x7b' :: w)

/-- No field begins with another brace that opens. -/
theorem Field.Spelled.head {f : Field} {w : Str} (h : f.Spelled w) : ∃ c r, w = c :: r ∧ c ≠ '\x7b' := by
  have hname : ∀ {name : Str}, IsName name → ∀ {c : CodePoint} {r : Str}, c ≠ '\x7b' →
      ∃ c' r', name ++ c :: r = c' :: r' ∧ c' ≠ '\x7b' := by
    intro name hname c r hc
    cases hname with
    | nil => exact ⟨c, r, rfl, hc⟩
    | @char c' r' hc' _ => exact ⟨c', r' ++ c :: r, rfl, fun heq => hc' (by simp [heq])⟩
    | bracket _ _ => exact ⟨'[', _, rfl, by decide⟩
  cases h with
  | plain h => exact hname h (by decide)
  | laid h _ => exact hname h (by decide)
  | formed h _ => exact hname h (by decide)
  | formedLaid h _ _ => exact hname h (by decide)

theorem piece?_char {c : CodePoint} (hopen : c ≠ '\x7b') (hclose : c ≠ '\x7d') (r : Str) :
    piece? (c :: r) = some (.char c, r) := by
  simp [piece?, hopen, hclose]

theorem piece?_open {c : CodePoint} (hc : c ≠ '\x7b') (r : Str) :
    piece? (.char '\x7b' :: c :: r) = (field? (c :: r)).map (fun x => (.field x.1, x.2)) := by
  simp [piece?, hc]

theorem piece?_of_spelled {p : Piece} {w : Str} (h : p.Spelled w) (r : Str) : piece? (w ++ r) = some (p, r) := by
  cases h with
  | openBrace => rfl
  | closeBrace => rfl
  | char hopen hclose => exact piece?_char hopen hclose r
  | @field f w hfield =>
    obtain ⟨c, rest, rfl, hc⟩ := hfield.head
    have hread := field?_of_spelled hfield r
    rw [List.cons_append] at hread
    rw [List.cons_append, List.cons_append, piece?_open hc, hread]
    rfl

theorem spelled_of_piece? {p : Piece} {cs r : Str} (h : piece? cs = some (p, r)) : ∃ w, p.Spelled w ∧ cs = w ++ r := by
  unfold piece? at h
  split at h
  · cases h
    exact ⟨_, .openBrace, rfl⟩
  · cases h
    exact ⟨_, .closeBrace, rfl⟩
  · cases h
  · obtain ⟨⟨f, r'⟩, hfield, heq⟩ := Option.map_eq_some_iff.1 h
    cases heq
    obtain ⟨w, hw, rfl⟩ := spelled_of_field? hfield
    exact ⟨_, .field hw, rfl⟩
  · next hclose hopen =>
    cases h
    exact ⟨_, .char hopen hclose, rfl⟩
  · cases h

/-- **What is read as a piece is what is written as one.** -/
theorem piece?_eq_some_iff {p : Piece} {cs r : Str} : piece? cs = some (p, r) ↔ ∃ w, p.Spelled w ∧ cs = w ++ r := by
  constructor
  · exact spelled_of_piece?
  · rintro ⟨w, hw, rfl⟩
    exact piece?_of_spelled hw r

/-! ## Templates -/

/-- The pieces are written one after the other at the beginning of a text, and so much is left. -/
inductive Splits : Str → List Piece → Str → Prop
  | nil (cs : Str) : Splits cs [] cs
  | cons {p : Piece} {w cs : Str} {ps : List Piece} {rest : Str} (hp : p.Spelled w) (h : Splits cs ps rest) :
      Splits (w ++ cs) (p :: ps) rest

/-- No piece is written at the beginning. -/
def Unreadable (cs : Str) : Prop := ∀ p w, Piece.Spelled p w → ¬ w <+: cs

theorem unreadable_iff {cs : Str} : Unreadable cs ↔ piece? cs = none := by
  rw [Option.eq_none_iff_forall_ne_some]
  constructor
  · rintro h ⟨p, r⟩ hpiece
    obtain ⟨w, hw, rfl⟩ := spelled_of_piece? hpiece
    exact h p w hw (List.prefix_append _ _)
  · rintro h p w hw ⟨r, rfl⟩
    exact h (p, r) (piece?_of_spelled hw r)

theorem pieces_of_none {cs : Str} (h : piece? cs = none) : pieces cs = ([], cs) := by
  rw [pieces]
  split
  · rfl
  · next hsome => rw [h] at hsome; cases hsome

theorem pieces_of_some {p : Piece} {cs r : Str} (h : piece? cs = some (p, r)) :
    pieces cs = (p :: (pieces r).1, (pieces r).2) := by
  rw [pieces]
  split
  · next hnone => rw [h] at hnone; cases hnone
  · next hsome => rw [h] at hsome; cases hsome; rfl

theorem splits_pieces (cs : Str) : Splits cs (pieces cs).1 (pieces cs).2 ∧ Unreadable (pieces cs).2 := by
  induction cs using pieces.induct with
  | case1 cs h =>
    rw [pieces_of_none h]
    exact ⟨.nil cs, unreadable_iff.2 h⟩
  | case2 cs p r h ih =>
    rw [pieces_of_some h]
    obtain ⟨w, hw, rfl⟩ := spelled_of_piece? h
    exact ⟨.cons hw ih.1, ih.2⟩

theorem pieces_of_splits {cs : Str} {ps : List Piece} {rest : Str} (h : Splits cs ps rest) :
    pieces cs = (ps ++ (pieces rest).1, (pieces rest).2) := by
  induction h with
  | nil cs => rfl
  | cons hp _ ih => rw [pieces_of_some (piece?_of_spelled hp _), ih]; rfl

/-- **A template is read as it is written.**  It can be split in one way into pieces and a rest that begins with none. -/
theorem pieces_eq_iff {cs : Str} {ps : List Piece} {rest : Str} :
    pieces cs = (ps, rest) ↔ Splits cs ps rest ∧ Unreadable rest := by
  constructor
  · intro h
    have hsplit := splits_pieces cs
    rw [h] at hsplit
    exact hsplit
  · rintro ⟨hsplits, hrest⟩
    rw [pieces_of_splits hsplits, pieces_of_none (unreadable_iff.1 hrest), List.append_nil]

end Template
end TagAlias
