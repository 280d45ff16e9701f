/-!
# Entries under keys

A list of keys with values, where an entry is set in its place if its key is there and after all others if not
(`lookup_set`).
-/
namespace TagAlias

variable {α β : Type} [BEq α] [LawfulBEq α]

theorem isSome_lookup_iff (k : α) (es : List (α × β)) : (es.lookup k).isSome = es.any (·.1 == k) := by
  rw [Bool.eq_iff_iff, List.lookup_isSome_iff, List.any_eq_true]
  simp only [BEq.comm]

theorem lookup_map_set [DecidableEq α] (k j : α) (v : β) : ∀ es : List (α × β),
    (es.map (fun e => if e.1 == k then (k, v) else e)).lookup j =
      if j = k then (es.lookup k).map (fun _ => v) else es.lookup j
  | [] => by simp
  | (a, x) :: es => by
    rw [List.map_cons]
    by_cases ha : a = k
    · subst ha
      by_cases hj : j = a
      · subst hj; simp
      · have hrest := lookup_map_set a j v es
        rw [if_neg hj] at hrest ⊢
        rw [if_pos (beq_self_eq_true a), List.lookup_cons, List.lookup_cons, beq_false_of_ne hj]
        exact hrest
    · rw [if_neg (by simpa using ha)]
      by_cases hj : j = a
      · subst hj; simp [ha]
      · rw [List.lookup_cons, List.lookup_cons, List.lookup_cons, beq_false_of_ne hj, beq_false_of_ne (Ne.symm ha)]
        exact lookup_map_set k j v es

/-- **What is set under a key stands there, and all else as before.** -/
theorem lookup_set [DecidableEq α] (es : List (α × β)) (k j : α) (v : β) :
    (if es.any (·.1 == k) then es.map (fun e => if e.1 == k then (k, v) else e) else es ++ [(k, v)]).lookup j =
      if j = k then some v else es.lookup j := by
  split
  · next hany =>
    rw [lookup_map_set]
    split
    · obtain ⟨x, hx⟩ := Option.isSome_iff_exists.1 ((isSome_lookup_iff k es).trans hany)
      rw [hx]; rfl
    · rfl
  · next hany =>
    rw [← isSome_lookup_iff, Bool.not_eq_true, Option.isSome_eq_false_iff, Option.isNone_iff_eq_none] at hany
    rw [List.lookup_append]
    split
    · next hj => subst hj; simp [hany]
    · next hj => rw [List.lookup_cons, beq_false_of_ne hj, List.lookup_nil, Option.or_none]

theorem lookup_of_mem_nodup : ∀ {es : List (α × β)} {k : α} {v : β}, (es.map (·.1)).Nodup → (k, v) ∈ es →
    es.lookup k = some v
  | (a, x) :: es, k, v, hnodup, hmem => by
    rw [List.map_cons, List.nodup_cons] at hnodup
    rw [List.lookup_cons]
    rcases List.mem_cons.1 hmem with heq | hmem
    · cases heq
      rw [beq_self_eq_true]
    · by_cases hk : k = a
      · exact absurd (List.mem_map.2 ⟨(k, v), hmem, hk⟩) hnodup.1
      · rw [beq_false_of_ne hk]
        exact lookup_of_mem_nodup hnodup.2 hmem

theorem mem_of_lookup : ∀ {es : List (α × β)} {k : α} {v : β}, es.lookup k = some v → (k, v) ∈ es
  | (a, x) :: es, k, v, h => by
    rw [List.lookup_cons] at h
    by_cases hk : k = a
    · subst hk
      rw [beq_self_eq_true, Option.some.injEq] at h
      rw [h]
      exact List.mem_cons_self
    · rw [beq_false_of_ne hk] at h
      exact List.mem_cons_of_mem _ (mem_of_lookup h)

end TagAlias
