import Mathlib.Data.List.TakeWhile
import TagAlias.Proofs.Data.Entries
import TagAlias.Proofs.Data.Sequence
import TagAlias.Proofs.Message.Fields
/-!
# What filling a template comes to

The pieces of a template are filled from the left.  The template is filled if they all are and nothing is left behind them
(`fillFrom_eq_ok_iff`).  Otherwise the first piece that cannot be filled stops it, or what is left where no piece is written
any more (`fillFrom_eq_error_iff`).
-/
namespace TagAlias
namespace Template

/-! ## Splitting further -/

theorem splits_append_iff {ps qs : List Piece} {cs rest : Str} :
    Splits cs (ps ++ qs) rest ↔ ∃ mid, Splits cs ps mid ∧ Splits mid qs rest := by
  constructor
  · intro h
    induction ps generalizing cs with
    | nil => exact ⟨cs, .nil cs, h⟩
    | cons p ps ih =>
      cases h with
      | cons hp h =>
        obtain ⟨mid, hps, hqs⟩ := ih h
        exact ⟨mid, .cons hp hps, hqs⟩
  · rintro ⟨mid, hps, hqs⟩
    induction hps with
    | nil => exact hqs
    | cons hp _ ih => exact .cons hp (ih hqs)

/-- No piece is written as nothing. -/
theorem unreadable_nil : Unreadable [] := unreadable_iff.2 rfl

/-! ## Filling -/

variable {α : Type} [Object α] (params : Params α) (depth : Nat)

/-- The text of a piece, where fields may stand in layouts so many levels deep. -/
def pieceText : Piece → Except TemplateFault Str := textOf params (fillFrom params depth)

/-- All pieces of a template are filled, and this is their text. -/
def Fills (cs text : Str) : Prop :=
  ∃ (ps : List Piece) (texts : List Str),
    Splits cs ps [] ∧ ps.map (pieceText params depth) = texts.map .ok ∧ text = texts.flatten

/-- All pieces up to here are filled. -/
def FillsUpTo (cs : Str) (ps : List Piece) (rest : Str) : Prop :=
  Splits cs ps rest ∧ ∀ p ∈ ps, ∃ text, pieceText params depth p = .ok text

/-- What stops the filling of a template. -/
inductive Stops (cs : Str) : TemplateFault → Prop
  /-- A piece cannot be filled. -/
  | piece {front : List Piece} {p : Piece} {w rest : Str} {e : TemplateFault}
      (hfront : FillsUpTo params depth cs front (w ++ rest)) (hp : p.Spelled w) (he : pieceText params depth p = .error e) :
      Stops cs e
  /-- Something is left that begins with no piece. -/
  | rest {front : List Piece} {rest : Str} (hfront : FillsUpTo params depth cs front rest) (hne : rest ≠ [])
      (hrest : Unreadable rest) : Stops cs malformed

variable {params depth}

theorem fillFrom_succ (cs : Str) : fillFrom params (depth + 1) cs =
    ((pieces cs).1.mapM (pieceText params depth)).bind
      (fun texts => if (pieces cs).2.isEmpty then .ok texts.flatten else .error malformed) := by
  rw [fillFrom]
  rfl

/-- **A template is filled exactly if all its pieces are and nothing is left.** -/
theorem fillFrom_eq_ok_iff {cs text : Str} :
    fillFrom params (depth + 1) cs = .ok text ↔ Fills params depth cs text := by
  rw [fillFrom_succ]
  constructor
  · intro h
    obtain ⟨texts, htexts, h⟩ := exists_of_bind h
    split at h
    · next hempty =>
      refine ⟨(pieces cs).1, texts, ?_, mapM_eq_ok_iff.1 htexts, (Except.ok.inj h).symm⟩
      rw [← List.isEmpty_iff.1 hempty]
      exact (splits_pieces cs).1
    · cases h
  · rintro ⟨ps, texts, hsplits, htexts, rfl⟩
    rw [pieces_eq_iff.2 ⟨hsplits, unreadable_nil⟩, mapM_eq_ok_iff.2 htexts]
    rfl

/-- **What stops a template is what comes first.** -/
theorem fillFrom_eq_error_iff {cs : Str} {e : TemplateFault} :
    fillFrom params (depth + 1) cs = .error e ↔ Stops params depth cs e := by
  rw [fillFrom_succ]
  obtain ⟨hsplits, hrest⟩ := splits_pieces cs
  constructor
  · intro h
    cases hmap : (pieces cs).1.mapM (pieceText params depth) with
    | error e' =>
      rw [hmap] at h
      cases h
      obtain ⟨front, p, back, hps, hfront, hp⟩ := first_of_mapM hmap
      rw [hps, splits_append_iff] at hsplits
      obtain ⟨mid, hbefore, hbehind⟩ := hsplits
      cases hbehind with
      | cons hspelled _ => exact .piece ⟨hbefore, hfront⟩ hspelled hp
    | ok texts =>
      rw [hmap] at h
      simp only [Except.bind] at h
      split at h
      · cases h
      · next hne =>
        cases h
        exact .rest ⟨hsplits, exists_of_mapM hmap⟩ (by simpa using hne) hrest
  · intro h
    cases h with
    | @piece front p w rest e hfront hp he =>
      have hpieces : pieces cs = (front ++ p :: (pieces rest).1, (pieces rest).2) := by
        rw [pieces_of_splits hfront.1, pieces_of_some (piece?_of_spelled hp rest)]
      rw [hpieces, mapM_eq_error_iff.2 ⟨front, p, _, rfl, hfront.2, he⟩]
      rfl
    | @rest front rest hfront hne hrest =>
      obtain ⟨texts, htexts⟩ := exists_mapM hfront.2
      rw [pieces_eq_iff.2 ⟨hfront.1, hrest⟩, htexts]
      simp [Except.bind, hne]

/-! ## Text before the first brace -/

theorem splits_chars {front : Str} (h : ∀ c ∈ front, c ≠ '\x7b' ∧ c ≠ '\x7d') (rest : Str) :
    Splits (front ++ rest) (front.map .char) rest := by
  induction front with
  | nil => exact .nil rest
  | cons c front ih =>
    obtain ⟨⟨hopen, hclose⟩, hfront⟩ := List.forall_mem_cons.1 h
    exact .cons (w := [c]) (.char hopen hclose) (ih hfront)

/-- **A template is stopped where behind mere text something is left that begins with no piece.** -/
theorem stops_of_text {front rest : Str} (h : ∀ c ∈ front, c ≠ '\x7b' ∧ c ≠ '\x7d') (hne : rest ≠ [])
    (hrest : Unreadable rest) : Stops params depth (front ++ rest) malformed := by
  refine .rest ⟨splits_chars h rest, fun p hp => ?_⟩ hne hrest
  obtain ⟨c, -, rfl⟩ := List.mem_map.1 hp
  exact ⟨[c], rfl⟩

/-! ## Fields that are mere names -/

/-- A field that only names a parameter. -/
structure Field.IsPlain (f : Field) : Prop where
  form : f.form = none
  layout : f.layout = []
  begins : ∃ c r, f.name = c :: r ∧ CodePoint.isDecimal c = false
  whole : ∀ c ∈ f.name, (c != '.' && c != '[') = true

theorem resolve_of_plain {f : Field} (h : f.IsPlain) : resolve params f.name =
    match params.lookup f.name with
    | some v => .ok v
    | none => .error .missing := by
  obtain ⟨c, r, hname, hc⟩ := h.begins
  have hfirst : f.name.takeWhile (fun c : CodePoint => c != '.' && c != '[') = f.name :=
    List.takeWhile_eq_self_iff.2 h.whole
  have hnumber : number? f.name = .ok none := by simp [number?, hname, hc, Text.ofDecimals, Str.chars]
  have hfollow : ∀ v : α, follow v [] = .ok v := by
    intro v
    rw [follow]
    rfl
  rw [resolve, hfirst, hnumber]
  cases params.lookup f.name with
  | none => rfl
  | some v => simp [bind, Except.bind, hname, hfollow]

theorem pieceText_of_plain {f : Field} (h : f.IsPlain) : pieceText params depth (.field f) =
    match params.lookup f.name with
    | some v => Object.lay v []
    | none => .error .missing := by
  rw [pieceText, textOf, resolve_of_plain h, h.form, h.layout]
  cases params.lookup f.name with
  | none => rfl
  | some v => rfl

/-- **Where fields are mere names, only a parameter that is not there stops a template.** -/
theorem stops_of_plain {cs : Str} {ps : List Piece} (hsplits : Splits cs ps [])
    (hplain : ∀ f, Piece.field f ∈ ps → f.IsPlain) (hshown : ∀ x ∈ params, ∃ text, Object.lay x.2 [] = .ok text)
    {e : TemplateFault} (h : Stops params depth cs e) : e = .missing := by
  rw [← fillFrom_eq_error_iff, fillFrom_succ, pieces_eq_iff.2 ⟨hsplits, unreadable_nil⟩] at h
  cases hmap : ps.mapM (pieceText params depth) with
  | ok texts =>
    rw [hmap] at h
    cases h
  | error e' =>
    rw [hmap] at h
    cases h
    obtain ⟨p, hp, he⟩ := error_of_mapM hmap
    cases p with
    | char c => cases he
    | field f =>
      rw [pieceText_of_plain (hplain f hp)] at he
      cases hlookup : params.lookup f.name with
      | none =>
        rw [hlookup] at he
        exact (Except.error.inj he).symm
      | some v =>
        obtain ⟨text, htext⟩ := hshown _ (mem_of_lookup hlookup)
        rw [hlookup] at he
        dsimp only at he htext
        rw [htext] at he
        cases he

/-! ## Whole templates -/

theorem fill_eq_ok_iff {template text : Str} : fill params template = .ok text ↔ Fills params 1 template text :=
  fillFrom_eq_ok_iff

theorem fill_eq_error_iff {template : Str} {e : TemplateFault} :
    fill params template = .error e ↔ Stops params 1 template e :=
  fillFrom_eq_error_iff

end Template
end TagAlias
