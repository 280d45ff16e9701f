import TagAlias.Proofs.Text.LineStart
import TagAlias.Text.Position
/-!
# Reading back what was encoded

`decode` reads exactly the encodings of texts, each as the text it is the encoding of (`decode_encode`, `encode_of_decode`).
The bytes of a character are a first one and tails, so a text can be cut at an offset exactly where no tail stands
(`encodes_take_iff`).
-/
namespace TagAlias
namespace Utf8

/-! ## Bytes of a character -/

theorem isTail_iff (b : UInt8) : isTail b = true ↔ 0x80 ≤ b.toNat ∧ b.toNat ≤ 0xBF := by
  simp [isTail, UInt8.le_iff_toNat_le]

theorem isSecond_iff (a b : UInt8) : isSecond a b = true ↔ isTail b = true ∧ (a.toNat = 0xE0 → 0xA0 ≤ b.toNat) ∧
    (a.toNat = 0xED → b.toNat ≤ 0x9F) ∧ (a.toNat = 0xF0 → 0x90 ≤ b.toNat) ∧ (a.toNat = 0xF4 → b.toNat ≤ 0x8F) := by
  have h : ∀ n : Nat, n < 256 → (a = UInt8.ofNat n ↔ a.toNat = n) := fun n hn => by
    rw [← UInt8.toNat_inj, UInt8.toNat_ofNat', Nat.mod_eq_of_lt hn]
  simp only [isSecond, Bool.and_eq_true, Bool.not_eq_true', Bool.and_eq_false_imp, beq_iff_eq, decide_eq_false_iff_not,
    UInt8.not_lt, UInt8.le_iff_toNat_le]
  have h₁ := h 0xE0 (by decide)
  have h₂ := h 0xED (by decide)
  have h₃ := h 0xF0 (by decide)
  have h₄ := h 0xF4 (by decide)
  simp only [UInt8.reduceOfNat] at h₁ h₂ h₃ h₄
  rw [h₁, h₂, h₃, h₄]
  simp [and_assoc]

theorem toNat_ofNat {n : Nat} (h : n.isValidChar) : (Char.ofNat n).toNat = n := by
  rw [Char.ofNat, dif_pos h]; rfl

/-- What holds of the characters of a range of numbers one by one holds of every character in it. -/
theorem of_toNat_range {a n : Nat} {P : Char → Prop} (h : ∀ k < n, P (Char.ofNat (a + k))) {c : Char} (ha : a ≤ c.toNat)
    (hn : c.toNat < a + n) : P c := by
  have hp := h (c.toNat - a) (by omega)
  rwa [Nat.add_sub_cancel' ha, Char.ofNat_toNat] at hp

theorem isValidChar_iff (n : Nat) : n.isValidChar ↔ n < 0xD800 ∨ 0xDFFF < n ∧ n < 0x110000 := Iff.rfl

/-! ## One character -/

theorem encodeChar_one {c : Char} (h : c.toNat < 0x80) : String.utf8EncodeChar c = [UInt8.ofNat c.toNat] := by
  have hv : c.val.toNat ≤ 0x7f := Nat.le_of_lt_succ h
  simp only [String.utf8EncodeChar, if_pos hv]; rfl

theorem encodeChar_two {c : Char} (h₁ : 0x80 ≤ c.toNat) (h₂ : c.toNat < 0x800) : String.utf8EncodeChar c =
    [UInt8.ofNat (c.toNat / 64 % 32 + 0xC0), UInt8.ofNat (c.toNat % 64 + 0x80)] := by
  have hv₁ : ¬ c.val.toNat ≤ 0x7f := Nat.not_le.2 h₁
  have hv₂ : c.val.toNat ≤ 0x7ff := Nat.le_of_lt_succ h₂
  simp only [String.utf8EncodeChar, if_neg hv₁, if_pos hv₂]; rfl

theorem encodeChar_three {c : Char} (h₁ : 0x800 ≤ c.toNat) (h₂ : c.toNat < 0x10000) : String.utf8EncodeChar c =
    [UInt8.ofNat (c.toNat / 4096 % 16 + 0xE0), UInt8.ofNat (c.toNat / 64 % 64 + 0x80), UInt8.ofNat (c.toNat % 64 + 0x80)] := by
  have hv₁ : ¬ c.val.toNat ≤ 0x7f := Nat.not_le.2 (Nat.lt_of_lt_of_le (by decide) h₁)
  have hv₂ : ¬ c.val.toNat ≤ 0x7ff := Nat.not_le.2 h₁
  have hv₃ : c.val.toNat ≤ 0xffff := Nat.le_of_lt_succ h₂
  simp only [String.utf8EncodeChar, if_neg hv₁, if_neg hv₂, if_pos hv₃]; rfl

theorem encodeChar_four {c : Char} (h : 0x10000 ≤ c.toNat) : String.utf8EncodeChar c =
    [UInt8.ofNat (c.toNat / 262144 % 8 + 0xF0), UInt8.ofNat (c.toNat / 4096 % 64 + 0x80),
      UInt8.ofNat (c.toNat / 64 % 64 + 0x80), UInt8.ofNat (c.toNat % 64 + 0x80)] := by
  have hv₁ : ¬ c.val.toNat ≤ 0x7f := Nat.not_le.2 (Nat.lt_of_lt_of_le (by decide) h)
  have hv₂ : ¬ c.val.toNat ≤ 0x7ff := Nat.not_le.2 (Nat.lt_of_lt_of_le (by decide) h)
  have hv₃ : ¬ c.val.toNat ≤ 0xffff := Nat.not_le.2 h
  simp only [String.utf8EncodeChar, if_neg hv₁, if_neg hv₂, if_neg hv₃]; rfl

/-- What the bytes at the beginning of a text have to be like for a character of one to four bytes. -/
inductive Begins : Bytes → Char → Bytes → Prop
  | one {a : UInt8} (r : Bytes) : a.toNat < 0x80 → Begins (a :: r) (Char.ofNat a.toNat) r
  | two {a b : UInt8} (r : Bytes) : 0xC2 ≤ a.toNat → a.toNat < 0xE0 → isTail b = true → Begins (a :: b :: r) (two a b) r
  | three {a b c : UInt8} (r : Bytes) : 0xE0 ≤ a.toNat → a.toNat < 0xF0 → isSecond a b = true → isTail c = true →
      Begins (a :: b :: c :: r) (three a b c) r
  | four {a b c d : UInt8} (r : Bytes) : 0xF0 ≤ a.toNat → a.toNat ≤ 0xF4 → isSecond a b = true → isTail c = true →
      isTail d = true → Begins (a :: b :: c :: d :: r) (four a b c d) r

theorem isSecond_of_isTail {a b : UInt8} (ha : a.toNat < 0xE0) (hb : isTail b = true) : isSecond a b = true := by
  rw [isSecond_iff]; exact ⟨hb, by omega, by omega, by omega, by omega⟩

theorem decodeFrom_begins {bs r : Bytes} {ch : Char} (h : Begins bs ch r) (pos : Nat) :
    decodeFrom pos bs = (decodeFrom (pos + (bs.length - r.length)) r).map (ch :: ·) := by
  have hlow : ∀ {a : UInt8}, 0xC2 ≤ a.toNat → a.toNat ≤ 0xF4 → ¬ a < 0x80 ∧ (a < 0xC2 || 0xF4 < a) = false := by
    intro a h₁ h₂
    refine ⟨fun h => ?_, ?_⟩
    · have := UInt8.lt_iff_toNat_lt.1 h; simp at this; omega
    · simp [UInt8.le_iff_toNat_le]; omega
  cases h with
  | @one a r h =>
    have hlt : a < 0x80 := UInt8.lt_iff_toNat_lt.2 h
    rw [decodeFrom.eq_def]
    simp [hlt]
  | @two a b r h₁ h₂ hb =>
    obtain ⟨ha, hstart⟩ := hlow h₁ (by omega)
    have hle : a < 0xE0 := UInt8.lt_iff_toNat_lt.2 h₂
    rw [decodeFrom.eq_def]
    simp only [ha, hstart, isSecond_of_isTail h₂ hb, Bool.false_eq_true, if_false, Bool.not_true, hle, if_true, List.length_cons]
    congr 2; omega
  | @three a b c r h₁ h₂ hb hc =>
    obtain ⟨ha, hstart⟩ := hlow (a := a) (by omega) (by omega)
    have hge : ¬ a < 0xE0 := fun h => by have := UInt8.lt_iff_toNat_lt.1 h; simp at this; omega
    have hle : a < 0xF0 := UInt8.lt_iff_toNat_lt.2 h₂
    rw [decodeFrom.eq_def]
    simp only [ha, hstart, hb, hc, Bool.false_eq_true, if_false, Bool.not_true, hge, hle, if_true, List.length_cons]
    congr 2; omega
  | @four a b c d r h₁ h₂ hb hc hd =>
    obtain ⟨ha, hstart⟩ := hlow (a := a) (by omega) (by omega)
    have hge : ¬ a < 0xE0 := fun h => by have := UInt8.lt_iff_toNat_lt.1 h; simp at this; omega
    have hge' : ¬ a < 0xF0 := fun h => by have := UInt8.lt_iff_toNat_lt.1 h; simp at this; omega
    rw [decodeFrom.eq_def]
    simp only [ha, hstart, hb, hc, hd, Bool.false_eq_true, if_false, Bool.not_true, hge, hge', List.length_cons]
    congr 2; omega

theorem begins_of_decodeFrom {pos : Nat} {a : UInt8} {bs : Bytes} {cs : List Char} (h : decodeFrom pos (a :: bs) = .ok cs) :
    ∃ ch r, Begins (a :: bs) ch r := by
  rw [decodeFrom.eq_def] at h
  simp only at h
  split at h
  · next ha => exact ⟨_, bs, .one bs (UInt8.lt_iff_toNat_lt.1 ha)⟩
  · split at h
    · cases h
    · next ha hstart =>
      have hlow : 0xC2 ≤ a.toNat ∧ a.toNat ≤ 0xF4 := by simpa [UInt8.le_iff_toNat_le] using hstart
      split at h
      · cases h
      · next b r =>
        split at h
        · cases h
        · next hb =>
          have hb : isSecond a b = true := by simpa using hb
          split at h
          · next h₂ => exact ⟨_, r, .two r hlow.1 (UInt8.lt_iff_toNat_lt.1 h₂) ((isSecond_iff a b).1 hb).1⟩
          · next h₂ =>
            have h₂ : 0xE0 ≤ a.toNat := by simpa [UInt8.le_iff_toNat_le] using h₂
            split at h
            · cases h
            · next c r =>
              split at h
              · cases h
              · next hc =>
                have hc : isTail c = true := by simpa using hc
                split at h
                · next h₃ => exact ⟨_, r, .three r h₂ (UInt8.lt_iff_toNat_lt.1 h₃) hb hc⟩
                · next h₃ =>
                  have h₃ : 0xF0 ≤ a.toNat := by simpa [UInt8.le_iff_toNat_le] using h₃
                  split at h
                  · cases h
                  · next d r =>
                    split at h
                    · cases h
                    · next hd => exact ⟨_, r, .four r h₃ hlow.2 hb hc (by simpa using hd)⟩

theorem toNat_two {a b : UInt8} (h₁ : 0xC2 ≤ a.toNat) (h₂ : a.toNat < 0xE0) (hb : isTail b = true) :
    (two a b).toNat = (a.toNat - 0xC0) * 64 + (b.toNat - 0x80) := by
  have := (isTail_iff b).1 hb
  rw [two, toNat_ofNat ((isValidChar_iff _).2 (.inl (by rw [low]; omega))), low]; omega

theorem toNat_three {a b c : UInt8} (h₁ : 0xE0 ≤ a.toNat) (h₂ : a.toNat < 0xF0) (hb : isSecond a b = true)
    (hc : isTail c = true) :
    (three a b c).toNat = (a.toNat - 0xE0) * 4096 + (b.toNat - 0x80) * 64 + (c.toNat - 0x80) := by
  have := (isTail_iff c).1 hc
  obtain ⟨hb, hE0, hED, -, -⟩ := (isSecond_iff a b).1 hb
  have := (isTail_iff b).1 hb
  rw [three, toNat_ofNat ((isValidChar_iff _).2 (by simp only [low]; omega))]
  simp only [low]; omega

theorem toNat_four {a b c d : UInt8} (h₁ : 0xF0 ≤ a.toNat) (h₂ : a.toNat ≤ 0xF4) (hb : isSecond a b = true)
    (hc : isTail c = true) (hd : isTail d = true) : (four a b c d).toNat =
      (a.toNat - 0xF0) * 262144 + (b.toNat - 0x80) * 4096 + (c.toNat - 0x80) * 64 + (d.toNat - 0x80) := by
  have := (isTail_iff c).1 hc
  have := (isTail_iff d).1 hd
  obtain ⟨hb, -, -, hF0, hF4⟩ := (isSecond_iff a b).1 hb
  have := (isTail_iff b).1 hb
  rw [four, toNat_ofNat ((isValidChar_iff _).2 (.inr (by simp only [low]; omega)))]
  simp only [low]; omega

theorem ofNat_eq {a : UInt8} {n : Nat} (h : n = a.toNat) : UInt8.ofNat n = a := by rw [h, UInt8.ofNat_toNat]

/-- **The character at the beginning is encoded by what stands there.** -/
theorem encode_begins {bs r : Bytes} {ch : Char} (h : Begins bs ch r) : bs = String.utf8EncodeChar ch ++ r := by
  cases h with
  | @one a r h =>
    have hv : (Char.ofNat a.toNat).toNat = a.toNat := toNat_ofNat ((isValidChar_iff _).2 (.inl (by omega)))
    rw [encodeChar_one (by omega), hv, ofNat_eq rfl]; rfl
  | @two a b r h₁ h₂ hb =>
    have hv := toNat_two h₁ h₂ hb
    have := (isTail_iff b).1 hb
    rw [encodeChar_two (by omega) (by omega), ofNat_eq (a := a) (by omega), ofNat_eq (a := b) (by omega)]; rfl
  | @three a b c r h₁ h₂ hb hc =>
    have hv := toNat_three h₁ h₂ hb hc
    have := (isTail_iff c).1 hc
    obtain ⟨hb, hE0, -, -, -⟩ := (isSecond_iff a b).1 hb
    have := (isTail_iff b).1 hb
    rw [encodeChar_three (by omega) (by omega), ofNat_eq (a := a) (by omega), ofNat_eq (a := b) (by omega),
      ofNat_eq (a := c) (by omega)]; rfl
  | @four a b c d r h₁ h₂ hb hc hd =>
    have hv := toNat_four h₁ h₂ hb hc hd
    have := (isTail_iff c).1 hc
    have := (isTail_iff d).1 hd
    obtain ⟨hb, -, -, hF0, hF4⟩ := (isSecond_iff a b).1 hb
    have := (isTail_iff b).1 hb
    rw [encodeChar_four (by omega), ofNat_eq (a := a) (by omega), ofNat_eq (a := b) (by omega), ofNat_eq (a := c) (by omega),
      ofNat_eq (a := d) (by omega)]; rfl

theorem Begins.cast {bs r : Bytes} {ch ch' : Char} (h : Begins bs ch r) (he : ch.toNat = ch'.toNat) : Begins bs ch' r :=
  Char.toNat_inj.1 he ▸ h

theorem begins_encodeChar (c : Char) (r : Bytes) : Begins (String.utf8EncodeChar c ++ r) c r := by
  have hvalid : c.toNat < 0xD800 ∨ 0xDFFF < c.toNat ∧ c.toNat < 0x110000 := c.valid
  have hbyte : ∀ {n : Nat}, n < 256 → (UInt8.ofNat n).toNat = n := fun h => by
    rw [UInt8.toNat_ofNat', Nat.mod_eq_of_lt h]
  have htail : ∀ n : Nat, isTail (UInt8.ofNat (n % 64 + 0x80)) = true := fun n => by
    rw [isTail_iff, hbyte (by omega)]; omega
  by_cases h₁ : c.toNat < 0x80
  · rw [encodeChar_one h₁]
    have := Begins.one (a := UInt8.ofNat c.toNat) r (by rw [hbyte (by omega)]; exact h₁)
    rwa [hbyte (by omega), Char.ofNat_toNat] at this
  by_cases h₂ : c.toNat < 0x800
  · rw [encodeChar_two (by omega) h₂]
    have ha : (UInt8.ofNat (c.toNat / 64 % 32 + 0xC0)).toNat = c.toNat / 64 % 32 + 0xC0 := hbyte (by omega)
    refine (Begins.two r (by rw [ha]; omega) (by rw [ha]; omega) (htail c.toNat)).cast ?_
    rw [toNat_two (by rw [ha]; omega) (by rw [ha]; omega) (htail c.toNat), ha, hbyte (by omega)]; omega
  by_cases h₃ : c.toNat < 0x10000
  · rw [encodeChar_three (by omega) h₃]
    have ha : (UInt8.ofNat (c.toNat / 4096 % 16 + 0xE0)).toNat = c.toNat / 4096 % 16 + 0xE0 := hbyte (by omega)
    have hb : (UInt8.ofNat (c.toNat / 64 % 64 + 0x80)).toNat = c.toNat / 64 % 64 + 0x80 := hbyte (by omega)
    have hs : isSecond (UInt8.ofNat (c.toNat / 4096 % 16 + 0xE0)) (UInt8.ofNat (c.toNat / 64 % 64 + 0x80)) = true := by
      rw [isSecond_iff, ha, hb]; exact ⟨htail _, by omega, by omega, by omega, by omega⟩
    refine (Begins.three r (by rw [ha]; omega) (by rw [ha]; omega) hs (htail c.toNat)).cast ?_
    rw [toNat_three (by rw [ha]; omega) (by rw [ha]; omega) hs (htail c.toNat), ha, hb, hbyte (by omega)]; omega
  · rw [encodeChar_four (by omega)]
    have ha : (UInt8.ofNat (c.toNat / 262144 % 8 + 0xF0)).toNat = c.toNat / 262144 % 8 + 0xF0 := hbyte (by omega)
    have hb : (UInt8.ofNat (c.toNat / 4096 % 64 + 0x80)).toNat = c.toNat / 4096 % 64 + 0x80 := hbyte (by omega)
    have hc : (UInt8.ofNat (c.toNat / 64 % 64 + 0x80)).toNat = c.toNat / 64 % 64 + 0x80 := hbyte (by omega)
    have hs : isSecond (UInt8.ofNat (c.toNat / 262144 % 8 + 0xF0)) (UInt8.ofNat (c.toNat / 4096 % 64 + 0x80)) = true := by
      rw [isSecond_iff, ha, hb]; exact ⟨htail _, by omega, by omega, by omega, by omega⟩
    refine (Begins.four r (by rw [ha]; omega) (by rw [ha]; omega) hs (htail _) (htail c.toNat)).cast ?_
    rw [toNat_four (by rw [ha]; omega) (by rw [ha]; omega) hs (htail _) (htail c.toNat), ha, hb, hc, hbyte (by omega)]; omega

theorem Begins.length_lt {bs r : Bytes} {ch : Char} (h : Begins bs ch r) : r.length < bs.length := by
  cases h <;> simp only [List.length_cons] <;> omega

/-! ## Whole texts -/

@[simp] theorem encode_nil : encode [] = [] := rfl

theorem encode_cons (c : Char) (cs : List Char) : encode (c :: cs) = String.utf8EncodeChar c ++ encode cs := List.flatMap_cons

theorem encode_append (cs ds : List Char) : encode (cs ++ ds) = encode cs ++ encode ds := List.flatMap_append

theorem decodeFrom_encode_append : ∀ (cs : List Char) (bs : Bytes) (pos : Nat),
    ∃ pos', decodeFrom pos (encode cs ++ bs) = (decodeFrom pos' bs).map (cs ++ ·)
  | [], bs, pos => ⟨pos, by
      rw [encode_nil, List.nil_append]
      cases decodeFrom pos bs <;> rfl⟩
  | c :: cs, bs, pos => by
    rw [encode_cons, List.append_assoc, decodeFrom_begins (begins_encodeChar c _)]
    obtain ⟨pos', h⟩ := decodeFrom_encode_append cs bs
      (pos + ((String.utf8EncodeChar c ++ (encode cs ++ bs)).length - (encode cs ++ bs).length))
    refine ⟨pos', ?_⟩
    rw [h]
    cases decodeFrom pos' bs <;> rfl

/-- **An encoded text is read back.** -/
theorem decodeFrom_encode (cs : List Char) (pos : Nat) : decodeFrom pos (encode cs) = .ok cs := by
  obtain ⟨pos', h⟩ := decodeFrom_encode_append cs [] pos
  rw [List.append_nil] at h
  rw [h, decodeFrom.eq_def]
  show Except.ok (cs ++ []) = _
  rw [List.append_nil]

/-- **What is read is the text that the bytes encode.** -/
theorem encode_of_decodeFrom : ∀ (bs : Bytes) (pos : Nat) (cs : List Char), decodeFrom pos bs = .ok cs → encode cs = bs
  | [], pos, cs, h => by rw [decodeFrom.eq_def] at h; rw [← Except.ok.inj h]; rfl
  | a :: bs, pos, cs, h => by
    obtain ⟨ch, r, hr⟩ := begins_of_decodeFrom h
    rw [decodeFrom_begins hr] at h
    cases hrest : decodeFrom (pos + ((a :: bs).length - r.length)) r with
    | error f => rw [hrest] at h; cases h
    | ok ds =>
      rw [hrest] at h
      rw [← Except.ok.inj h, encode_cons, encode_of_decodeFrom r _ ds hrest, ← encode_begins hr]
termination_by bs => bs.length
decreasing_by exact hr.length_lt

theorem decode_encode (cs : List Char) : decode (encode cs) = .ok cs := decodeFrom_encode cs 0

theorem encode_of_decode {bs : Bytes} {cs : List Char} (h : decode bs = .ok cs) : encode cs = bs :=
  encode_of_decodeFrom bs 0 cs h

theorem encodes_iff (bs : Bytes) : Encodes bs ↔ ∃ cs, decode bs = .ok cs :=
  ⟨fun ⟨cs, h⟩ => ⟨cs, by rw [← h, decode_encode]⟩, fun ⟨cs, h⟩ => ⟨cs, encode_of_decode h⟩⟩

instance (src : Bytes) (o : Nat) : Decidable (src.IsBoundary o) :=
  decidable_of_iff (o ≤ src.length ∧ (decode (src.take o)).isOk = true) (by
    rw [Bytes.IsBoundary, encodes_iff]
    cases decode (src.take o) <;> simp [Except.isOk, Except.toBool])

theorem encodes_append {as : Bytes} (h : Encodes as) (bs : Bytes) : Encodes (as ++ bs) ↔ Encodes bs := by
  obtain ⟨cs, rfl⟩ := h
  constructor
  · rw [encodes_iff]
    rintro ⟨es, he⟩
    obtain ⟨pos', h⟩ := decodeFrom_encode_append cs bs 0
    rw [decode, h] at he
    cases hbs : decodeFrom pos' bs with
    | error f => rw [hbs] at he; cases he
    | ok ds => exact ⟨ds, encode_of_decodeFrom bs pos' ds hbs⟩
  · rintro ⟨ds, rfl⟩
    exact ⟨cs ++ ds, encode_append cs ds⟩

/-! ## Where a text can be cut -/

theorem encodeChar_eq_cons (c : Char) :
    ∃ a t, String.utf8EncodeChar c = a :: t ∧ isTail a = false ∧ ∀ b ∈ t, isTail b = true := by
  have hfirst : ∀ {a : UInt8}, a.toNat < 0x80 ∨ 0xC2 ≤ a.toNat → isTail a = false := fun {a} h => by
    rw [← Bool.not_eq_true, isTail_iff]; omega
  have h := begins_encodeChar c []
  rw [List.append_nil] at h
  generalize String.utf8EncodeChar c = bs at h
  cases h with
  | one _ h => exact ⟨_, [], rfl, hfirst (.inl h), fun _ hb => by cases hb⟩
  | two _ h₁ _ hb => exact ⟨_, _, rfl, hfirst (.inr h₁), by simpa using hb⟩
  | three _ h₁ _ hb hc =>
    exact ⟨_, _, rfl, hfirst (.inr (by omega)), by simpa using ⟨((isSecond_iff _ _).1 hb).1, hc⟩⟩
  | four _ h₁ _ hb hc hd =>
    exact ⟨_, _, rfl, hfirst (.inr (by omega)), by simpa using ⟨((isSecond_iff _ _).1 hb).1, hc, hd⟩⟩

theorem isTail_head {b : UInt8} {bs : Bytes} (h : Encodes (b :: bs)) : isTail b = false := by
  obtain ⟨cs, hcs⟩ := h
  cases cs with
  | nil => cases hcs
  | cons c cs =>
    obtain ⟨a, t, heq, ha, -⟩ := encodeChar_eq_cons c
    rw [encode_cons, heq] at hcs
    exact (List.cons.inj hcs).1 ▸ ha

theorem encodes_take_encode : ∀ (cs : List Char) (p : Nat), (∀ b, (encode cs)[p]? = some b → isTail b = false) →
    Encodes ((encode cs).take p)
  | [], p, _ => ⟨[], by rw [encode_nil, List.take_nil]⟩
  | c :: cs, p, h => by
    obtain ⟨a, t, heq, -, ht⟩ := encodeChar_eq_cons c
    rw [encode_cons] at h ⊢
    by_cases hp : p = 0
    · subst hp; exact ⟨[], rfl⟩
    by_cases hin : p < (String.utf8EncodeChar c).length
    · -- Inside the character stands a tail.
      rw [List.getElem?_append_left hin, heq] at h
      rw [heq, List.length_cons] at hin
      obtain ⟨q, rfl⟩ : ∃ q, p = q + 1 := ⟨p - 1, by omega⟩
      have hq : q < t.length := by omega
      have := h _ (by rw [List.getElem?_cons_succ, List.getElem?_eq_getElem hq])
      rw [ht _ (List.getElem_mem hq)] at this
      cases this
    · rw [List.getElem?_append_right (by omega)] at h
      rw [List.take_append, List.take_of_length_le (by omega), encodes_append ⟨[c], List.append_nil _⟩]
      exact encodes_take_encode cs _ h

/-- **A text can be cut where no tail stands, and nowhere else.** -/
theorem encodes_take_iff {bs : Bytes} (h : Encodes bs) (p : Nat) :
    Encodes (bs.take p) ↔ ∀ b, bs[p]? = some b → isTail b = false := by
  constructor
  · intro hp b hb
    rw [← List.take_append_drop p bs, encodes_append hp] at h
    obtain ⟨hlt, rfl⟩ := List.getElem?_eq_some_iff.1 hb
    rw [List.drop_eq_getElem_cons hlt] at h
    exact isTail_head h
  · intro hb
    obtain ⟨cs, rfl⟩ := h
    exact encodes_take_encode cs p hb

end Utf8

/-! ## Strings and positions -/

open Utf8

theorem toString?_ofString (s : String) : (Bytes.ofString s).toString? = .ok s := by
  rw [Bytes.toString?, Bytes.ofString, decode_encode]
  exact congrArg Except.ok (String.ofList_toList)

theorem ofString_of_toString? {bs : Bytes} {s : String} (h : bs.toString? = .ok s) : Bytes.ofString s = bs := by
  unfold Bytes.toString? at h
  cases hd : decode bs with
  | error f => rw [hd] at h; cases h
  | ok cs =>
    rw [hd] at h
    rw [← Except.ok.inj h, Bytes.ofString, String.toList_ofList, encode_of_decode hd]

theorem encodes_ofString (s : String) : Encodes (Bytes.ofString s) := ⟨s.toList, rfl⟩

theorem ofString_append (s t : String) : Bytes.ofString (s ++ t) = Bytes.ofString s ++ Bytes.ofString t := by
  rw [Bytes.ofString, String.toList_append, encode_append]; rfl

theorem encodes_of_toString? {bs : Bytes} {s : String} (h : bs.toString? = .ok s) : Encodes bs :=
  ⟨s.toList, ofString_of_toString? h⟩

/-- Up to a line's beginning a text can be read: it is cut behind a line feed. -/
theorem encodes_take_lineStart {src : Bytes} (h : Encodes src) (o : Nat) :
    Text.lineStart src o ≤ (src.take o).length ∧ Encodes (src.take (Text.lineStart src o)) := by
  by_cases hfeed : Text.lineFeed ∈ src.take o
  · obtain ⟨before, indent, hsplit, hnot⟩ := Text.exists_last_lineFeed hfeed
    have hsrc : src = before ++ Text.lineFeed :: (indent ++ src.drop o) := by
      have happend := List.take_append_drop o src
      rw [hsplit, List.append_assoc, List.cons_append] at happend
      exact happend.symm
    have hbefore : Encodes before := by
      have hcut := (encodes_take_iff h before.length).2 (fun b hb => by
        rw [hsrc, List.getElem?_append_right (Nat.le_refl _), Nat.sub_self, List.getElem?_cons_zero, Option.some.injEq] at hb
        rw [← hb]; decide)
      rwa [hsrc, List.take_left] at hcut
    rw [Text.lineStart_eq hsplit hnot]
    refine ⟨by rw [hsplit, List.length_append, List.length_cons]; omega, ?_⟩
    rw [hsrc, List.take_length_add_append]
    exact (encodes_append hbefore _).2 ⟨['\n'], rfl⟩
  · rw [Text.lineStart_eq_zero hfeed, List.take_zero]
    exact ⟨Nat.zero_le _, [], rfl⟩

/-- **An offset has a position exactly where the text can be cut.** -/
theorem ofOffset_ok_iff {src : Bytes} (h : Encodes src) (o : Nat) :
    (∃ p, Position.ofOffset src o = .ok p) ↔ Encodes (src.take o) := by
  obtain ⟨hle, hline⟩ := encodes_take_lineStart h o
  have hsplit : src.take o = src.take (Text.lineStart src o) ++ src.slice (Text.lineStart src o) o := by
    rw [List.length_take] at hle
    rw [Bytes.slice, ← List.take_add]
    congr 1; omega
  rw [hsplit, encodes_append hline, encodes_iff]
  unfold Position.ofOffset
  cases decode (src.slice (Text.lineStart src o) o) with
  | error f => exact ⟨fun ⟨_, h⟩ => (by cases h), fun ⟨_, h⟩ => (by cases h)⟩
  | ok cs => exact ⟨fun _ => ⟨cs, rfl⟩, fun _ => ⟨_, rfl⟩⟩

end TagAlias
