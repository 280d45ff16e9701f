import TagAlias.Syntax.Binding
/-!
# The nodes below a node

`Node.preorder` holds a node, its children and all below them, and with each of these all below it (`preorder_trans`).
The names that a pattern binds stand there too (`bindingLeaves_subset_preorder`).  Trees can be compared.
-/
namespace TagAlias
namespace Node

theorem self_mem_preorder : ∀ n : Node, n ∈ n.preorder
  | mk l cs => by rw [preorder]; exact List.mem_cons_self

theorem mem_preorderAll_iff : ∀ (cs : List Node) (m : Node), m ∈ preorderAll cs ↔ ∃ c ∈ cs, m ∈ c.preorder
  | [], m => by simp [preorderAll]
  | c :: cs, m => by simp [preorderAll, mem_preorderAll_iff cs m]

theorem mem_preorder_iff (n m : Node) : m ∈ n.preorder ↔ m = n ∨ ∃ c ∈ n.children, m ∈ c.preorder := by
  cases n with
  | mk l cs => rw [preorder, List.mem_cons, mem_preorderAll_iff]; rfl

theorem mem_preorder_of_mem_children {n c : Node} (h : c ∈ n.children) : c ∈ n.preorder :=
  (mem_preorder_iff n c).2 (.inr ⟨c, h, self_mem_preorder c⟩)

mutual

theorem preorder_trans : ∀ (n : Node) {m k : Node}, m ∈ n.preorder → k ∈ m.preorder → k ∈ n.preorder
  | mk l cs, m, k, hm, hk => by
    rw [preorder] at hm
    rcases List.mem_cons.1 hm with rfl | hm
    · exact hk
    · rw [preorder]; exact List.mem_cons_of_mem _ (preorderAll_trans cs hm hk)

theorem preorderAll_trans : ∀ (cs : List Node) {m k : Node}, m ∈ preorderAll cs → k ∈ m.preorder → k ∈ preorderAll cs
  | [], m, k, hm, _ => by rw [preorderAll] at hm; cases hm
  | c :: cs, m, k, hm, hk => by
    rw [preorderAll, List.mem_append] at hm ⊢
    exact hm.imp (fun h => preorder_trans c h hk) (fun h => preorderAll_trans cs h hk)

end

theorem mem_children_of_child? {n m : Node} {f : String} (h : n.child? f = some m) : m ∈ n.children :=
  List.mem_of_find?_eq_some h

theorem mem_preorder_of_child? {n m : Node} {f : String} (h : n.child? f = some m) : m ∈ n.preorder :=
  mem_preorder_of_mem_children (mem_children_of_child? h)

theorem mem_preorder_of_mem_namedChildren {n m : Node} (h : m ∈ n.namedChildren) : m ∈ n.preorder :=
  mem_preorder_of_mem_children (List.mem_filter.1 h).1

mutual

/-- **A bound name stands at or below the node that binds it.** -/
theorem bindingLeaves_subset_preorder : ∀ (n : Node) {m : Node}, m ∈ n.bindingLeaves → m ∈ n.preorder
  | mk l cs, m, h => by
    rw [bindingLeaves] at h
    rw [preorder]
    split at h
    · exact List.mem_cons.2 (.inl (List.mem_singleton.1 h))
    · exact List.mem_cons_of_mem _ (bindingLeavesAt_subset_preorderAll cs h)
    · exact List.mem_cons_of_mem _ (bindingLeavesOfAll_subset_preorderAll cs h)
    · cases h

theorem bindingLeavesAt_subset_preorderAll : ∀ (cs : List Node) {f : String} {m : Node}, m ∈ bindingLeavesAt f cs →
    m ∈ preorderAll cs
  | [], f, m, h => by rw [bindingLeavesAt] at h; cases h
  | c :: cs, f, m, h => by
    rw [bindingLeavesAt] at h
    rw [preorderAll, List.mem_append]
    split at h
    · exact .inl (bindingLeaves_subset_preorder c h)
    · exact .inr (bindingLeavesAt_subset_preorderAll cs h)

theorem bindingLeavesOfAll_subset_preorderAll : ∀ (cs : List Node) {m : Node}, m ∈ bindingLeavesOfAll cs →
    m ∈ preorderAll cs
  | [], m, h => by rw [bindingLeavesOfAll] at h; cases h
  | c :: cs, m, h => by
    rw [bindingLeavesOfAll] at h
    rw [preorderAll, List.mem_append]
    split at h
    · rcases List.mem_append.1 h with h | h
      · exact .inl (bindingLeaves_subset_preorder c h)
      · exact .inr (bindingLeavesOfAll_subset_preorderAll cs h)
    · exact .inr (bindingLeavesOfAll_subset_preorderAll cs h)

end

/-! ## Paths -/

/-- The node at the end of a path, which says the number of a child at each step. -/
def at? : Node → List Nat → Option Node
  | n, [] => some n
  | n, i :: path => n.children[i]?.bind (·.at? path)

@[simp] theorem at?_nil (n : Node) : n.at? [] = some n := by cases n; rfl

theorem at?_cons (n : Node) (i : Nat) (path : List Nat) : n.at? (i :: path) = n.children[i]?.bind (·.at? path) := by
  cases n; rfl

theorem mem_preorder_of_at? : ∀ (path : List Nat) {n m : Node}, n.at? path = some m → m ∈ n.preorder
  | [], n, m, h => by
    rw [at?_nil, Option.some.injEq] at h
    subst h
    exact self_mem_preorder n
  | i :: path, n, m, h => by
    rw [at?_cons] at h
    obtain ⟨c, hc, hm⟩ := Option.bind_eq_some_iff.1 h
    have hchild : c ∈ n.preorder := mem_preorder_of_mem_children (List.mem_of_getElem? hc)
    exact preorder_trans n hchild (mem_preorder_of_at? path hm)


/-! ## Equality -/

mutual

/-- Whether two trees are the same can be computed. -/
def decEq : ∀ a b : Node, Decidable (a = b)
  | mk l cs, mk l' cs' =>
    match instDecidableEqLabel l l', decEqAll cs cs' with
    | isTrue h, isTrue hs => isTrue (by rw [h, hs])
    | isFalse h, _ => isFalse (fun e => h (mk.inj e).1)
    | _, isFalse hs => isFalse (fun e => hs (mk.inj e).2)

def decEqAll : ∀ as bs : List Node, Decidable (as = bs)
  | [], [] => isTrue rfl
  | [], _ :: _ => isFalse (fun e => by cases e)
  | _ :: _, [] => isFalse (fun e => by cases e)
  | a :: as, b :: bs =>
    match decEq a b, decEqAll as bs with
    | isTrue h, isTrue hs => isTrue (by rw [h, hs])
    | isFalse h, _ => isFalse (fun e => h (List.cons.inj e).1)
    | _, isFalse hs => isFalse (fun e => hs (List.cons.inj e).2)

end

instance : DecidableEq Node := decEq

end Node

end TagAlias
