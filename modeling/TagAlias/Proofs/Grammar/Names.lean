import Mathlib.Data.List.TakeWhile
import TagAlias.Proofs.Grammar.Reading
import TagAlias.Proofs.Text.Utf8
import TagAlias.Text.Identifier
/-!
# Names

What a parser that asks for a name does where one stands (`IsName`): it takes the whole name, or fails.  An identifier is a
name (`IsName.of_isIdentifier`), and a hyphenated name is one up to its first hyphen (`exists_of_hyphenated`).
-/
namespace TagAlias
namespace Grammar

open Utf8 (of_toNat_range)

/-! ## Names -/

/-- A name without escapes. -/
structure IsName (w : List Char) : Prop where
  head : ∃ a v, w = a :: v ∧ isNameStart a = true
  chars : ∀ e ∈ w, isNameChar e = true

/-- A name that stands before this ends there. -/
def endsName (d : Char) : Bool := !isNameChar d && d != '\\'

theorem isSolid_of_isNameChar {d : Char} (h : isNameChar d = true) : isSolid d = true := by
  have hslash : d ≠ '/' := by
    rintro rfl
    exact absurd h (by decide)
  rw [isNameChar, Bool.and_eq_true, Bool.and_eq_true] at h
  rw [isSolid, h.1.2, Bool.true_and, bne_iff_ne]
  exact hslash

theorem nameLength_append {d : Char} (hd : endsName d = true) (r : List Char) :
    ∀ {w : List Char}, (∀ e ∈ w, isNameChar e = true) → nameLength false (w ++ d :: r) = w.length
  | [], _ => by
    rw [endsName, Bool.and_eq_true, Bool.not_eq_true', bne_iff_ne] at hd
    rw [List.nil_append, nameLength.eq_def]
    simp [hd.1, hd.2]
  | e :: w, hw => by
    have hrest := nameLength_append hd r (fun e he => hw e (List.mem_cons_of_mem _ he))
    rw [List.cons_append, nameLength.eq_def]
    simp [hw e List.mem_cons_self, hrest]

section

variable {w : List Char} (hw : IsName w)

include hw

theorem IsName.skip (r : List Char) (off : Nat) : (⟨w ++ r, off⟩ : Cursor).skip = ⟨w ++ r, off⟩ := by
  obtain ⟨a, v, rfl, -⟩ := hw.head
  exact skip_solid (isSolid_of_isNameChar (hw.chars a List.mem_cons_self)) _ off

theorem IsName.skip_blank (r : List Char) (off : Nat) : (⟨' ' :: (w ++ r), off⟩ : Cursor).skip = ⟨w ++ r, off + 1⟩ := by
  obtain ⟨a, v, rfl, -⟩ := hw.head
  exact Grammar.skip_blank (isSolid_of_isNameChar (hw.chars a List.mem_cons_self)) _ off

/-- A name ends in front of what is in no name. -/
theorem IsName.name? {d : Char} (hd : endsName d = true) (r : List Char) (off : Nat) :
    (⟨w ++ d :: r, off⟩ : Cursor).name? = some (String.ofList w, w.length) := by
  obtain ⟨a, v, rfl, hstart⟩ := hw.head
  have hlength : nameLength false (a :: (v ++ d :: r)) = v.length + 1 := nameLength_append hd r hw.chars
  have htake : (a :: (v ++ d :: r)).take (v.length + 1) = a :: v := by
    rw [List.take_succ_cons, List.take_left]
  unfold Cursor.name?
  simp only [List.cons_append, hstart, Bool.true_or, if_true, hlength, htake, List.length_cons]

/-- No pattern begins with a name. -/
theorem IsName.bindingTarget_eq {c : Cursor} {r : List Char} {off : Nat} (hskip : c.skip = ⟨w ++ r, off⟩) (g : Rules) :
    bindingTarget g c = identifier g c := by
  obtain ⟨a, v, rfl, -⟩ := hw.head
  have hchar : isNameChar a = true := hw.chars a List.mem_cons_self
  have hbracket : ∀ {s : String} {b : Char}, s.toList = [b] → isNameChar b = false → tok s c.skip = none := by
    intro s b hs hb
    refine tok_eq_none (d := a) (r := v ++ r) ?_ ?_ (by rw [hs]; exact List.cons_ne_nil _ _)
    · rw [hskip, hw.skip]; rfl
    · intro t ht
      rw [hs] at ht
      rw [(List.cons.inj ht).1, hchar] at hb
      cases hb
  have hobject : objectPattern g c = none := rule_eq_none (inOrder_eq_none (hbracket rfl (by decide)) _) _
  have harray : arrayPattern g c = none := rule_eq_none (inOrder_eq_none (hbracket rfl (by decide)) _) _
  have hpattern : destructuring g c = none := by
    rw [destructuring, firstOf_cons_of_none hobject, firstOf_cons_of_none harray]
    rfl
  rw [bindingTarget, firstOf_cons_of_none hpattern, firstOf]
  cases hid : identifier g c with
  | none => rfl
  | some p => rfl

variable {c : Cursor} {d : Char} {r : List Char} {off : Nat}
variable (hd : endsName d = true) (hskip : c.skip = ⟨w ++ d :: r, off⟩) (hle : c.offset ≤ off)

include hd hskip

theorem IsName.skip_name? : c.skip.name? = some (String.ofList w, w.length) := by
  rw [hskip]
  exact hw.name? hd r off

include hle

theorem IsName.nameOf_yields (kind : String) {test : String → Bool} (h : test (String.ofList w) = true) :
    Yields (nameOf kind test) c (d :: r) := by
  obtain ⟨n, off', hle', hsome⟩ := taking_yields (c := ⟨w ++ d :: r, off⟩) (n := w.length) (List.drop_left' rfl) kind true
  refine ⟨n, off', Nat.le_trans hle hle', ?_⟩
  unfold nameOf
  simp only [hw.skip_name? hd hskip, h, if_true]
  rw [hskip]
  exact hsome

theorem IsName.word_yields {t : String} (h : String.ofList w = t) : Yields (word t) c (d :: r) := by
  obtain ⟨n, off', hle', hsome⟩ := taking_yields (c := ⟨w ++ d :: r, off⟩) (n := w.length) (List.drop_left' rfl) t false
  refine ⟨n, off', Nat.le_trans hle hle', ?_⟩
  unfold word
  simp only [hw.skip_name? hd hskip, h, beq_self_eq_true, if_true]
  rw [hskip]
  exact hsome

/-- A name that is read here ends in front of what is in no name. -/
theorem IsName.nameOf_stops (kind : String) (test : String → Bool) :
    nameOf kind test c = none ∨ Reaches (nameOf kind test) c (d :: r) := by
  cases h : test (String.ofList w) with
  | false => exact .inl (nameOf_eq_none (hw.skip_name? hd hskip) h)
  | true => exact .inr (hw.nameOf_yields hd hskip hle kind h).reaches

theorem IsName.word_stops (t : String) : word t c = none ∨ Reaches (word t) c (d :: r) := by
  by_cases h : String.ofList w = t
  · exact .inr (hw.word_yields hd hskip hle h).reaches
  · exact .inl (word_eq_none (hw.skip_name? hd hskip) h)

end

/-! ## Hyphenated names -/

/-- What a hyphenated name may begin with. -/
def isWordStart (c : Char) : Bool := c.isAlpha || c == '_' || c == '$'

def isWordChar (c : Char) : Bool := isWordStart c || c.isDigit

theorem toNat_le_of_isAlpha {c : Char} (h : c.isAlpha = true) : c.toNat ≤ 122 := by
  change (decide ('A'.val ≤ c.val ∧ c.val ≤ 'Z'.val) || (decide ('a'.val ≤ c.val) && decide (c.val ≤ 'z'.val))) = true at h
  rw [Bool.or_eq_true, Bool.and_eq_true, decide_eq_true_eq, decide_eq_true_eq, decide_eq_true_eq] at h
  rcases h with ⟨-, h⟩ | ⟨-, h⟩
  · exact (UInt32.le_iff_toNat_le.1 h).trans (by decide : 'Z'.val.toNat ≤ 122)
  · exact UInt32.le_iff_toNat_le.1 h

theorem toNat_le_of_isDigit {c : Char} (h : c.isDigit = true) : c.toNat ≤ 57 := by
  change (decide ('0'.val ≤ c.val) && decide (c.val ≤ '9'.val)) = true at h
  rw [Bool.and_eq_true, decide_eq_true_eq, decide_eq_true_eq] at h
  exact UInt32.le_iff_toNat_le.1 h.2

theorem toNat_lt_of_isWordChar {c : Char} (h : isWordChar c = true) : c.toNat < 128 := by
  rw [isWordChar, isWordStart, Bool.or_eq_true, Bool.or_eq_true, Bool.or_eq_true, beq_iff_eq, beq_iff_eq] at h
  rcases h with ((h | rfl) | rfl) | h
  · have := toNat_le_of_isAlpha h
    omega
  · decide
  · decide
  · have := toNat_le_of_isDigit h
    omega

theorem isNameChar_of_isWordChar {c : Char} (h : isWordChar c = true) : isNameChar c = true :=
  of_toNat_range (a := 0) (n := 128) (P := fun c => isWordChar c = true → isNameChar c = true) (by decide +kernel)
    (Nat.zero_le _) (toNat_lt_of_isWordChar h) h

theorem isNameStart_of_isWordStart {c : Char} (h : isWordStart c = true) : isNameStart c = true :=
  of_toNat_range (a := 0) (n := 128) (P := fun c => isWordStart c = true → isNameStart c = true) (by decide +kernel)
    (Nat.zero_le _) (toNat_lt_of_isWordChar (by rw [isWordChar, h, Bool.true_or])) h

/-- A hyphenated name is a name, a hyphen and something more. -/
theorem exists_of_hyphenated {cs : List Char} (h : (hyphenatedLength cs).isSome = true) :
    ∃ w r, cs = w ++ '-' :: r ∧ IsName w := by
  cases cs with
  | nil => cases h
  | cons a cs =>
    unfold hyphenatedLength at h
    simp only at h
    split at h
    · next hletter =>
      have hletter : isWordStart a = true := hletter
      have hstart : isWordChar a = true := by rw [isWordChar, hletter, Bool.true_or]
      have hsplit := List.takeWhile_append_dropWhile (p := isWordChar) (l := cs)
      have htake : (a :: cs).takeWhile isWordChar = a :: cs.takeWhile isWordChar := List.takeWhile_cons_of_pos hstart
      change (if (((a :: cs).drop ((a :: cs).takeWhile isWordChar).length).head? == some '-') = true then _
        else none).isSome = true at h
      have hdrop : (a :: cs).drop (a :: cs.takeWhile isWordChar).length = cs.dropWhile isWordChar := by
        have hleft : (cs.takeWhile isWordChar ++ cs.dropWhile isWordChar).drop (cs.takeWhile isWordChar).length =
            cs.dropWhile isWordChar := List.drop_left' rfl
        rwa [hsplit] at hleft
      rw [htake, hdrop] at h
      split at h
      · next hhyphen =>
        obtain ⟨r, hr⟩ : ∃ r, cs.dropWhile isWordChar = '-' :: r := by
          cases hd : cs.dropWhile isWordChar with
          | nil => rw [hd] at hhyphen; cases hhyphen
          | cons d r =>
            rw [hd, List.head?_cons, beq_iff_eq, Option.some.injEq] at hhyphen
            exact ⟨r, by rw [hhyphen]⟩
        rw [hr] at hsplit
        have hall : ∀ e ∈ a :: cs.takeWhile isWordChar, isWordChar e = true :=
          List.forall_mem_cons.2 ⟨hstart, fun e he => List.mem_takeWhile_imp he⟩
        refine ⟨a :: cs.takeWhile isWordChar, r, by rw [List.cons_append, hsplit], ?_⟩
        exact ⟨⟨a, _, rfl, isNameStart_of_isWordStart hletter⟩, fun e he => isNameChar_of_isWordChar (hall e he)⟩
      · cases h
    · cases h

/-! ## Identifiers -/

def isIdentifierChar (c : Char) : Bool := Text.isIdentifierStart c || Text.isIdentifierPart c

theorem isIdentifierChar_of_isBlank {c : Char} (h : isBlank c = true) : isIdentifierChar c = false := by
  unfold isBlank at h
  simp only [Bool.or_eq_true, Bool.and_eq_true, beq_iff_eq, decide_eq_true_eq] at h
  rcases h with (((((((((((rfl | h) | rfl) | rfl) | h) | rfl) | rfl) | rfl) | rfl) | rfl) | rfl) | rfl)
  · decide +kernel
  · exact of_toNat_range (a := 9) (n := 5) (P := fun c => isIdentifierChar c = false) (by decide +kernel) h.1
      (Nat.lt_succ_of_le h.2)
  · decide +kernel
  · decide +kernel
  · exact of_toNat_range (a := 8192) (n := 12) (P := fun c => isIdentifierChar c = false) (by decide +kernel) h.1
      (Nat.lt_succ_of_le h.2)
  all_goals decide +kernel

theorem isIdentifierChar_of_isPunctuation {c : Char} (h : isPunctuation c = true) : isIdentifierChar c = false := by
  have hall : (":;\x60\"'@#.,|^&<=>+-*/\\%?!~()[]\x7b\x7d".toList.all (!isIdentifierChar ·)) = true := by decide +kernel
  have hc := List.all_eq_true.1 hall c (List.contains_iff_mem.1 h)
  rwa [Bool.not_eq_true'] at hc

theorem isNameChar_of_isIdentifierChar {c : Char} (h : isIdentifierChar c = true) : isNameChar c = true := by
  have hcontrol : c < ' ' → isIdentifierChar c = false :=
    of_toNat_range (a := 0) (n := 32) (P := fun c => isIdentifierChar c = false) (by decide +kernel) (Nat.zero_le _)
  have hblank : isBlank c = false := by
    cases hb : isBlank c with
    | false => rfl
    | true => rw [isIdentifierChar_of_isBlank hb] at h; cases h
  have hpunctuation : isPunctuation c = false := by
    cases hp : isPunctuation c with
    | false => rfl
    | true => rw [isIdentifierChar_of_isPunctuation hp] at h; cases h
  have hle : ¬ c < ' ' := fun hlt => by rw [hcontrol hlt] at h; cases h
  rw [isNameChar, hblank, hpunctuation, decide_eq_false hle]
  rfl

theorem isNameStart_of_isIdentifierStart {c : Char} (h : Text.isIdentifierStart c = true) : isNameStart c = true := by
  have hdigit : c.isDigit = false := by
    cases hd : c.isDigit with
    | false => rfl
    | true =>
      have hnot : Text.isIdentifierStart c = false :=
        of_toNat_range (a := 0) (n := 58) (P := fun c => c.isDigit = true → Text.isIdentifierStart c = false)
          (by decide +kernel) (Nat.zero_le _) (Nat.lt_succ_of_le (toNat_le_of_isDigit hd)) hd
      rw [hnot] at h
      cases h
  rw [isNameStart, isNameChar_of_isIdentifierChar (by rw [isIdentifierChar, h, Bool.true_or]), hdigit]
  rfl

theorem IsName.of_isIdentifier {s : String} (h : Text.isIdentifier s = true) : IsName s.toList := by
  unfold Text.isIdentifier at h
  split at h
  · cases h
  · next a v hs =>
    rw [Bool.and_eq_true, List.all_eq_true] at h
    have hchars : ∀ e ∈ v, isNameChar e = true := fun e he =>
      isNameChar_of_isIdentifierChar (by rw [isIdentifierChar, h.2 e he, Bool.or_true])
    have hstart := isNameStart_of_isIdentifierStart h.1
    rw [hs]
    refine ⟨⟨a, v, rfl, hstart⟩, List.forall_mem_cons.2 ⟨?_, hchars⟩⟩
    rw [isNameStart, Bool.and_eq_true] at hstart
    exact hstart.1

theorem IsName.append {v w : List Char} (hv : IsName v) (hw : ∀ e ∈ w, isNameChar e = true) : IsName (v ++ w) := by
  obtain ⟨a, v, rfl, hstart⟩ := hv.head
  refine ⟨⟨a, v ++ w, rfl, hstart⟩, fun e he => ?_⟩
  rcases List.mem_append.1 he with he | he
  · exact hv.chars e he
  · exact hw e he

end Grammar
end TagAlias
