import TagAlias.Text.Lowercase
/-!
# Lower case stays lower case

No small letter is a capital again, so a text in lower case is its own lower case (`lower_lower`).  For the letters beyond
ASCII that is a fact about each two rows of the table of capitals: the small letters of one row miss the other.
-/
namespace TagAlias.Text

/-! ## The table of capitals -/

/-- The first and the last small letter of a row, and whether it has gaps or is a single letter. -/
def smallEnds (r : Nat × Nat × Nat × Int) : Nat × Nat × Bool :=
  ((r.1 + r.2.2.2).toNat, (r.2.1 + r.2.2.2).toNat, r.2.2.1 == 2 || r.1 == r.2.1)

/-- Small letters with these ends are no capitals of a row: they lie beside it, or between its capitals. -/
def misses (ends : Nat × Nat × Bool) (s : Nat × Nat × Nat × Int) : Bool :=
  ends.2.1.blt s.1 || s.2.1.blt ends.1 || (s.2.2.1.beq 2 && ends.2.2 && ((ends.1 + s.1) % 2).beq 1)

/-- The small letters of a row are characters, none of them a letter that needs care.  They lie beyond ASCII but for that of
the sign for kelvin. -/
def isPlaced (r : Nat × Nat × Nat × Int) : Bool :=
  (r.2.2.1 == 1 || r.2.2.1 == 2) && (0x80 ≤ r.1 + r.2.2.2 || (r.1 == r.2.1 && r.1 + r.2.2.2 == 0x6b))
    && (r.2.1 + r.2.2.2 < 0xd800 || (0xe000 ≤ r.1 + r.2.2.2 && r.2.1 + r.2.2.2 < 0x110000))
    && (r.2.1 + r.2.2.2 < 0x3a3 || 0x3a3 < r.1 + r.2.2.2)
    && (r.2.1 + r.2.2.2 < 0x130 || 0x130 < r.1 + r.2.2.2 || (r.2.2.1 == 2 && (r.1 + r.2.2.2) % 2 == 1))

theorem capitals_miss : (capitals.map smallEnds).all (fun ends => capitals.all (misses ends)) = true := by decide +kernel

theorem capitals_placed : capitals.all isPlaced = true := by decide +kernel

/-- A number is one of the capitals of a row. -/
def isCapitalOf (n : Nat) (r : Nat × Nat × Nat × Int) : Bool := r.1 ≤ n && n ≤ r.2.1 && (n - r.1) % r.2.2.1 == 0

theorem lowerChar_of_capital {c : Char} {r : Nat × Nat × Nat × Int} (h : ¬ c.toNat < 0x80)
    (hr : capitals.find? (isCapitalOf c.toNat) = some r) : lowerChar c = Char.ofNat (c.toNat + r.2.2.2).toNat := by
  unfold isCapitalOf at hr
  rw [lowerChar, if_neg h, hr]

theorem lowerChar_of_none {c : Char} (h : ¬ c.toNat < 0x80) (hr : capitals.find? (isCapitalOf c.toNat) = none) :
    lowerChar c = c := by
  unfold isCapitalOf at hr
  rw [lowerChar, if_neg h, hr]

theorem not_isCapitalOf_of_misses {r s : Nat × Nat × Nat × Int} {n m : Nat} (hr : r.2.2.1 = 1 ∨ r.2.2.1 = 2)
    (h : misses (smallEnds r) s = true) (hn : isCapitalOf n r = true) (hm : (m : Int) = n + r.2.2.2)
    (hstart : 0 ≤ r.1 + r.2.2.2) : isCapitalOf m s = false := by
  obtain ⟨a, b, k, d⟩ := r
  obtain ⟨a', b', k', d'⟩ := s
  simp only [misses, smallEnds, isCapitalOf, Bool.or_eq_true, Bool.and_eq_true, decide_eq_true_eq, beq_iff_eq,
    Nat.blt_eq, Nat.beq_eq] at h hn hr hm hstart
  simp only [isCapitalOf, Bool.and_eq_false_iff, decide_eq_false_iff_not, beq_eq_false_iff_ne]
  rcases h with (h | h) | ⟨⟨rfl, hstep⟩, hodd⟩
  · omega
  · omega
  · rcases hr with rfl | rfl <;> omega

/-! ## Small letters -/

/-- A character that is its own lower case, wherever it stands. -/
structure Small (c : Char) : Prop where
  notSigma : c ≠ '\u03a3'
  notDotted : c ≠ '\u0130'
  same : lowerChar c = c

theorem small_of_ascii {c : Char} (h : c.toNat < 0x80) : Small (lowerChar c) := by
  have hall : ∀ n < 0x80, lowerChar (Char.ofNat n) ≠ '\u03a3' ∧ lowerChar (Char.ofNat n) ≠ '\u0130' ∧
      lowerChar (lowerChar (Char.ofNat n)) = lowerChar (Char.ofNat n) := by decide +kernel
  obtain ⟨hsigma, hdotted, hsame⟩ := hall c.toNat h
  rw [Char.ofNat_toNat] at hsigma hdotted hsame
  exact ⟨hsigma, hdotted, hsame⟩

theorem small_of_capital {c : Char} {r : Nat × Nat × Nat × Int} (h : ¬ c.toNat < 0x80)
    (hr : capitals.find? (isCapitalOf c.toNat) = some r) : Small (lowerChar c) := by
  have hmem := List.mem_of_find?_eq_some hr
  have hcapital := List.find?_some hr
  have hplaced := List.all_eq_true.1 capitals_placed r hmem
  have hmisses := List.all_eq_true.1 (List.all_eq_true.1 capitals_miss _ (List.mem_map_of_mem hmem))
  rw [lowerChar_of_capital h hr]
  generalize c.toNat = n at hcapital h
  obtain ⟨a, b, k, d⟩ := r
  simp only [isPlaced, isCapitalOf, Bool.or_eq_true, Bool.and_eq_true, decide_eq_true_eq, beq_iff_eq] at hplaced hcapital
  obtain ⟨⟨⟨⟨hstep, habove⟩, hcharacter⟩, hsigma⟩, hdotted⟩ := hplaced
  obtain ⟨m, hm⟩ : ∃ m : Nat, (m : Int) = n + d := ⟨(n + d).toNat, by omega⟩
  have hvalid : m.isValidChar := by
    rw [Nat.isValidChar]
    omega
  have hnat : (Char.ofNat m).toNat = m := by rw [Char.ofNat, dif_pos hvalid]; rfl
  have hm' : ((n : Int) + d).toNat = m := by omega
  have hne : ∀ x : Char, x.toNat ≠ m → Char.ofNat m ≠ x := fun x hx heq => hx (by rw [← heq, hnat])
  rw [hm']
  by_cases hascii : m < 0x80
  · have : m = 0x6b := by omega
    subst this
    exact ⟨by decide, by decide, by decide +kernel⟩
  · refine ⟨hne _ (by change 0x3a3 ≠ m; omega), hne _ ?_, lowerChar_of_none (by rwa [hnat]) ?_⟩
    · change 0x130 ≠ m
      rcases hstep with rfl | rfl <;> omega
    · rw [List.find?_eq_none, hnat]
      intro s hs
      rw [Bool.not_eq_true]
      have hn : isCapitalOf n (a, b, k, d) = true := by simp [isCapitalOf]; omega
      exact not_isCapitalOf_of_misses hstep (hmisses s hs) hn hm (by dsimp only; omega)

/-- **What a character is mapped to is small.** -/
theorem small_lowerChar {c : Char} (hsigma : c ≠ '\u03a3') (hdotted : c ≠ '\u0130') : Small (lowerChar c) := by
  by_cases h : c.toNat < 0x80
  · exact small_of_ascii h
  · cases hr : capitals.find? (isCapitalOf c.toNat) with
    | some r => exact small_of_capital h hr
    | none =>
      have hsame := lowerChar_of_none h hr
      rw [hsame]
      exact ⟨hsigma, hdotted, hsame⟩

/-! ## Lower case of texts -/

theorem lowerFrom_of_small : ∀ (cs before : List Char), (∀ c ∈ cs, Small c) → lowerFrom before cs = cs
  | [], _, _ => by rw [lowerFrom]
  | c :: r, before, h => by
    obtain ⟨hc, hr⟩ := List.forall_mem_cons.1 h
    rw [lowerFrom, lowerFrom_of_small r _ hr]
    simp [hc.notSigma, hc.notDotted, hc.same]

theorem small_of_mem_lowerFrom : ∀ (cs before : List Char), ∀ x ∈ lowerFrom before cs, Small x
  | [], _, x, hx => by rw [lowerFrom] at hx; cases hx
  | c :: r, before, x, hx => by
    rw [lowerFrom] at hx
    rcases List.mem_append.1 hx with hx | hx
    · split at hx
      · rw [List.mem_singleton] at hx
        subst hx
        split <;> exact ⟨by decide, by decide, by decide +kernel⟩
      · next hsigma =>
        split at hx
        · rcases List.mem_cons.1 hx with rfl | hx
          · exact ⟨by decide, by decide, by decide +kernel⟩
          · rw [List.mem_singleton] at hx
            subst hx
            exact ⟨by decide, by decide, by decide +kernel⟩
        · next hdotted =>
          rw [List.mem_singleton] at hx
          subst hx
          exact small_lowerChar (by simpa using hsigma) (by simpa using hdotted)
    · exact small_of_mem_lowerFrom r _ x hx

/-- **Lower case stays lower case.** -/
theorem lower_lower (s : String) : lower (lower s) = lower s := by
  have hsmall : ∀ c ∈ (lower s).toList, Small c := by
    rw [lower, String.toList_ofList]
    exact small_of_mem_lowerFrom s.toList []
  rw [lower.eq_def (lower s), lowerFrom_of_small _ _ hsmall, String.ofList_toList]

/-- A dot at the beginning stays. -/
theorem head?_lower {s : String} (h : s.toList.head? = some '.') : (lower s).toList.head? = some '.' := by
  rw [lower, String.toList_ofList]
  cases hs : s.toList with
  | nil => rw [hs] at h; cases h
  | cons c r =>
    rw [hs, List.head?_cons, Option.some.injEq] at h
    subst h
    rw [lowerFrom]
    rfl

end TagAlias.Text
