/-!
# Steps that may fail, one after another

What it says of the steps that a sequence of them has come to its end.
-/
namespace TagAlias

variable {α β ε : Type}

theorem exists_of_bind {x : Except ε α} {f : α → Except ε β} {b : β} (h : x >>= f = .ok b) :
    ∃ a, x = .ok a ∧ f a = .ok b := by
  cases x with
  | error e => cases h
  | ok a => exact ⟨a, rfl, h⟩

variable {f : α → Except ε β}

theorem mapM_cons_ok {a : α} {as : List α} {bs : List β} (h : (a :: as).mapM f = .ok bs) :
    ∃ b rest, f a = .ok b ∧ as.mapM f = .ok rest ∧ bs = b :: rest := by
  rw [List.mapM_cons] at h
  obtain ⟨b, hb, h⟩ := exists_of_bind h
  obtain ⟨rest, hrest, h⟩ := exists_of_bind h
  exact ⟨b, rest, hb, hrest, (Except.ok.inj h).symm⟩

/-- **The results of a sequence are those of its steps.** -/
theorem mem_mapM_iff : ∀ {as : List α} {bs : List β}, as.mapM f = .ok bs → ∀ b, b ∈ bs ↔ ∃ a ∈ as, f a = .ok b
  | [], bs, h, b => by cases h; simp
  | a :: as, bs, h, b => by
    obtain ⟨b', rest, hb', hrest, rfl⟩ := mapM_cons_ok h
    simp [mem_mapM_iff hrest, hb', eq_comm]

theorem exists_mapM : ∀ {as : List α}, (∀ a ∈ as, ∃ b, f a = .ok b) → ∃ bs, as.mapM f = .ok bs
  | [], _ => ⟨[], rfl⟩
  | a :: as, h => by
    obtain ⟨ha, has⟩ := List.forall_mem_cons.1 h
    obtain ⟨b, hb⟩ := ha
    obtain ⟨rest, hrest⟩ := exists_mapM has
    exact ⟨b :: rest, by rw [List.mapM_cons, hb, hrest]; rfl⟩

theorem exists_of_mapM : ∀ {as : List α} {bs : List β}, as.mapM f = .ok bs → ∀ a ∈ as, ∃ b, f a = .ok b
  | a' :: as, bs, h, a, ha => by
    obtain ⟨b, rest, hb, hrest, -⟩ := mapM_cons_ok h
    rcases List.mem_cons.1 ha with rfl | ha
    · exact ⟨b, hb⟩
    · exact exists_of_mapM hrest a ha

/-- Before a step with which a sequence fails all steps come to their ends. -/
theorem first_of_mapM {e : ε} : ∀ {as : List α}, as.mapM f = .error e →
    ∃ front a back, as = front ++ a :: back ∧ (∀ a' ∈ front, ∃ b, f a' = .ok b) ∧ f a = .error e
  | a :: as, h => by
    rw [List.mapM_cons] at h
    cases ha : f a with
    | error e' =>
      rw [ha] at h
      cases h
      exact ⟨[], a, as, rfl, by simp, ha⟩
    | ok b =>
      cases has : as.mapM f with
      | error e' =>
        rw [ha, has] at h
        cases h
        obtain ⟨front, a', back, rfl, hfront, ha'⟩ := first_of_mapM has
        exact ⟨a :: front, a', back, rfl, by simpa [ha] using hfront, ha'⟩
      | ok bs =>
        rw [ha, has] at h
        cases h

theorem error_of_mapM {e : ε} {as : List α} (h : as.mapM f = .error e) : ∃ a ∈ as, f a = .error e := by
  obtain ⟨front, a, back, rfl, -, ha⟩ := first_of_mapM h
  exact ⟨a, by simp, ha⟩

/-- **A sequence fails with the first step that does.** -/
theorem mapM_eq_error_iff {e : ε} {as : List α} : as.mapM f = .error e ↔
    ∃ front a back, as = front ++ a :: back ∧ (∀ a' ∈ front, ∃ b, f a' = .ok b) ∧ f a = .error e := by
  constructor
  · exact first_of_mapM
  · rintro ⟨front, a, back, rfl, hfront, ha⟩
    obtain ⟨bs, hbs⟩ := exists_mapM hfront
    rw [List.mapM_append, hbs, List.mapM_cons, ha]
    rfl

/-- **A sequence comes to its end exactly if every step does.** -/
theorem mapM_eq_ok_iff : ∀ {as : List α} {bs : List β}, as.mapM f = .ok bs ↔ as.map f = bs.map .ok
  | [], bs => by cases bs <;> simp [pure, Except.pure]
  | a :: as, bs => by
    constructor
    · intro h
      obtain ⟨b, rest, hb, hrest, rfl⟩ := mapM_cons_ok h
      rw [List.map_cons, List.map_cons, hb, mapM_eq_ok_iff.1 hrest]
    · intro h
      cases bs with
      | nil => cases h
      | cons b rest =>
        obtain ⟨hb, hrest⟩ := List.cons.inj h
        rw [List.mapM_cons, hb, mapM_eq_ok_iff.2 hrest]
        rfl

theorem mapM_congr {g : α → Except ε β} : ∀ {as : List α}, (∀ a ∈ as, f a = g a) → as.mapM f = as.mapM g
  | [], _ => rfl
  | a :: as, h => by
    obtain ⟨ha, has⟩ := List.forall_mem_cons.1 h
    rw [List.mapM_cons, List.mapM_cons, ha, mapM_congr has]

theorem foldlM_cons_ok {g : β → α → Except ε β} {a : α} {as : List α} {b c : β} (h : (a :: as).foldlM g b = .ok c) :
    ∃ b', g b a = .ok b' ∧ as.foldlM g b' = .ok c := by
  rw [List.foldlM_cons] at h
  exact exists_of_bind h

theorem foldlM_concat_ok {g : β → α → Except ε β} {a : α} {as : List α} {b c : β} (h : (as ++ [a]).foldlM g b = .ok c) :
    ∃ b', as.foldlM g b = .ok b' ∧ g b' a = .ok c := by
  rw [List.foldlM_append] at h
  obtain ⟨b', hb', h⟩ := exists_of_bind h
  obtain ⟨c', hc', hend⟩ := foldlM_cons_ok h
  cases hend
  exact ⟨b', hb', hc'⟩

end TagAlias
