import TagAlias.Proofs.Syntax.Preorder
/-!
# Well-nested trees

In a well-nested tree the children of a node lie within it, in order and disjoint.  Then all nodes below lie within it
(`Nested.span`), no node begins or ends inside a leaf (`Nested.apart`), and where a child begins or ends it parts those in
front of it from those behind it (`NestedIn.parts_start`, `NestedIn.parts_stop`).
-/
namespace TagAlias.Node

mutual

/-- Children lie within their parents, in order and disjoint. -/
def Nested : Node → Prop
  | mk l cs => l.start ≤ l.stop ∧ NestedIn l.start l.stop cs

/-- The nodes lie between two offsets, in order and disjoint. -/
def NestedIn (start stop : Nat) : List Node → Prop
  | [] => start ≤ stop
  | n :: r => start ≤ n.start ∧ Nested n ∧ NestedIn n.stop stop r

end

mutual

/-- A tree can be checked for being well-nested. -/
instance decidableNested : ∀ n : Node, Decidable n.Nested
  | mk l cs => @instDecidableAnd _ _ (inferInstance) (decidableNestedIn l.start l.stop cs)

instance decidableNestedIn (start stop : Nat) : ∀ cs : List Node, Decidable (NestedIn start stop cs)
  | [] => inferInstanceAs (Decidable (start ≤ stop))
  | n :: r => @instDecidableAnd _ _ (inferInstance)
    (@instDecidableAnd _ _ (decidableNested n) (decidableNestedIn n.stop stop r))

end

theorem Nested.ordered : ∀ {n : Node}, n.Nested → n.start ≤ n.stop
  | mk _ _, h => h.1

theorem NestedIn.ordered : ∀ {cs : List Node} {start stop : Nat}, NestedIn start stop cs → start ≤ stop
  | [], _, _, h => h
  | n :: r, start, stop, h => by
    have hn := h.2.1.ordered
    have hr := NestedIn.ordered h.2.2
    have hs := h.1
    omega

mutual

/-- **The nodes of a well-nested tree lie within it.** -/
theorem Nested.span : ∀ (n : Node) {m : Node}, n.Nested → m ∈ n.preorder →
    n.start ≤ m.start ∧ m.start ≤ m.stop ∧ m.stop ≤ n.stop
  | mk l cs, m, h, hm => by
    rw [preorder, List.mem_cons] at hm
    rcases hm with rfl | hm
    · exact ⟨Nat.le_refl _, h.1, Nat.le_refl _⟩
    · exact NestedIn.span cs h.2 hm

theorem NestedIn.span : ∀ (cs : List Node) {start stop : Nat} {m : Node}, NestedIn start stop cs → m ∈ preorderAll cs →
    start ≤ m.start ∧ m.start ≤ m.stop ∧ m.stop ≤ stop
  | n :: r, start, stop, m, h, hm => by
    have hs := h.1
    have hn := h.2.1.ordered
    have hr := NestedIn.ordered h.2.2
    rw [preorderAll, List.mem_append] at hm
    rcases hm with hm | hm
    · have := Nested.span n h.2.1 hm
      omega
    · have := NestedIn.span r h.2.2 hm
      omega

end

/-- An offset does not lie inside a node. -/
def Misses (o : Nat) (n : Node) : Prop := ¬ (n.start < o ∧ o < n.stop)

mutual

/-- **No node begins or ends inside a leaf.** -/
theorem Nested.apart : ∀ (n : Node) {m leaf : Node}, n.Nested → m ∈ n.preorder → leaf ∈ n.preorder → leaf.children = [] →
    Misses m.start leaf ∧ Misses m.stop leaf
  | mk l cs, m, leaf, h, hm, hleaf, hnone => by
    have hspan := Nested.span (mk l cs) h hleaf
    rw [preorder, List.mem_cons] at hm hleaf
    rcases hm with rfl | hm
    · exact ⟨fun ⟨_, _⟩ => by omega, fun ⟨_, _⟩ => by omega⟩
    · rcases hleaf with rfl | hleaf
      · rw [show cs = [] from hnone] at hm
        cases hm
      · exact NestedIn.apart cs h.2 hm hleaf hnone

theorem NestedIn.apart : ∀ (cs : List Node) {start stop : Nat} {m leaf : Node}, NestedIn start stop cs → m ∈ preorderAll cs →
    leaf ∈ preorderAll cs → leaf.children = [] → Misses m.start leaf ∧ Misses m.stop leaf
  | n :: r, start, stop, m, leaf, h, hm, hleaf, hnone => by
    rw [preorderAll, List.mem_append] at hm hleaf
    rcases hm with hm | hm <;> rcases hleaf with hleaf | hleaf
    · exact Nested.apart n h.2.1 hm hleaf hnone
    · -- The leaf comes after what begins and ends.
      have h₁ := Nested.span n h.2.1 hm
      have h₂ := NestedIn.span r h.2.2 hleaf
      exact ⟨fun ⟨_, _⟩ => by omega, fun ⟨_, _⟩ => by omega⟩
    · -- The leaf comes before.
      have h₁ := NestedIn.span r h.2.2 hm
      have h₂ := Nested.span n h.2.1 hleaf
      exact ⟨fun ⟨_, _⟩ => by omega, fun ⟨_, _⟩ => by omega⟩
    · exact NestedIn.apart r h.2.2 hm hleaf hnone

end

/-! ## In front and behind -/

theorem NestedIn.span_child {cs : List Node} {start stop : Nat} (h : NestedIn start stop cs) {m : Node} (hm : m ∈ cs) :
    start ≤ m.start ∧ m.start ≤ m.stop ∧ m.stop ≤ stop :=
  NestedIn.span cs h ((mem_preorderAll_iff cs m).2 ⟨m, hm, self_mem_preorder m⟩)

/-- An offset lies behind the first `i` nodes and not behind the beginning of any other. -/
def Parts (o i : Nat) (cs : List Node) : Prop := (∀ a ∈ cs.take i, a.stop ≤ o) ∧ ∀ b ∈ cs.drop i, o ≤ b.start

theorem Parts.cons {o i : Nat} {c : Node} {cs : List Node} (hc : c.stop ≤ o) (h : Parts o i cs) : Parts o (i + 1) (c :: cs) := by
  refine ⟨?_, h.2⟩
  intro a ha
  rw [List.take_succ_cons, List.mem_cons] at ha
  rcases ha with rfl | ha
  · exact hc
  · exact h.1 a ha

theorem NestedIn.parts_start : ∀ {cs : List Node} {start stop : Nat} {i : Nat} {m : Node}, NestedIn start stop cs →
    cs[i]? = some m → Parts m.start i cs
  | [], _, _, _, _, _, hm => by simp at hm
  | c :: cs, start, stop, 0, m, h, hm => by
    rw [List.getElem?_cons_zero, Option.some.injEq] at hm
    subst hm
    have hspan := h.2.1.ordered
    refine ⟨fun a ha => (by cases ha), ?_⟩
    intro b hb
    rw [List.drop_zero, List.mem_cons] at hb
    rcases hb with rfl | hb
    · exact Nat.le_refl _
    · have := (NestedIn.span_child h.2.2 hb).1
      omega
  | c :: cs, start, stop, i + 1, m, h, hm => by
    rw [List.getElem?_cons_succ] at hm
    exact (NestedIn.parts_start h.2.2 hm).cons (NestedIn.span_child h.2.2 (List.mem_of_getElem? hm)).1

theorem NestedIn.parts_stop : ∀ {cs : List Node} {start stop : Nat} {i : Nat} {m : Node}, NestedIn start stop cs →
    cs[i]? = some m → Parts m.stop (i + 1) cs
  | [], _, _, _, _, _, hm => by simp at hm
  | c :: cs, start, stop, 0, m, h, hm => by
    rw [List.getElem?_cons_zero, Option.some.injEq] at hm
    subst hm
    refine Parts.cons (Nat.le_refl _) ⟨fun a ha => (by cases ha), ?_⟩
    intro b hb
    exact (NestedIn.span_child h.2.2 hb).1
  | c :: cs, start, stop, i + 1, m, h, hm => by
    rw [List.getElem?_cons_succ] at hm
    have hspan := NestedIn.span_child h.2.2 (List.mem_of_getElem? hm)
    exact (NestedIn.parts_stop h.2.2 hm).cons (by omega)

end TagAlias.Node
