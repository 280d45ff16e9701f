import TagAlias.Scope.Analysis
import TagAlias.Proofs.Scope.Table
import TagAlias.Proofs.Syntax.Preorder
/-!
# What the analysis of a node reads

Every text that is read for the declarations of a node stands at or below the node (`readNodes_subset_preorder`): the
leaves of its patterns, the names that it imports, its keyword.  Where all texts can be read, the declarations are those
of the table (`readable_eq`), and the analysis of a tree meets no fault (`fault?_eq_none`).
-/
namespace TagAlias
namespace Lexical

open Node

theorem nameOf_subset_preorder {n m : Node} (h : m ∈ nameOf n) : m ∈ n.preorder :=
  mem_preorder_of_child? (Option.mem_toList.1 h)

theorem patternAt_subset_preorder {n m : Node} {f : String} (h : m ∈ patternAt n f) : m ∈ n.preorder := by
  obtain ⟨p, hp, hm⟩ := List.mem_flatMap.1 h
  exact preorder_trans n (mem_preorder_of_child? (Option.mem_toList.1 hp)) (bindingLeaves_subset_preorder p hm)

theorem patterns_subset_preorder {n m : Node} (h : m ∈ patterns n) : m ∈ n.preorder := by
  obtain ⟨p, hp, hm⟩ := List.mem_flatMap.1 h
  exact preorder_trans n (mem_preorder_of_mem_namedChildren hp) (bindingLeaves_subset_preorder p hm)

theorem parameters_subset_preorder {n m : Node} (h : m ∈ parameters n) : m ∈ n.preorder := by
  rcases List.mem_append.1 h with h | h
  · obtain ⟨p, hp, hm⟩ := List.mem_flatMap.1 h
    exact preorder_trans n (mem_preorder_of_child? (Option.mem_toList.1 hp)) (patterns_subset_preorder hm)
  · exact patternAt_subset_preorder h

theorem fromPart_subset_preorder {p m : Node} (h : m ∈ Scope.importedNames.fromPart p) : m ∈ p.preorder := by
  unfold Scope.importedNames.fromPart at h
  split at h
  · rw [List.mem_singleton.1 h]; exact self_mem_preorder p
  split at h
  · exact mem_preorder_of_mem_namedChildren (List.mem_filter.1 h).1
  split at h
  · obtain ⟨s, hs, hm⟩ := List.mem_filterMap.1 h
    have hsp := mem_preorder_of_mem_namedChildren (List.mem_filter.1 hs).1
    split at hm
    · rename_i l hl
      split at hm
      · cases hm
        rcases Option.or_eq_some_iff.1 hl with hl | ⟨-, hl⟩ <;>
          exact preorder_trans p hsp (mem_preorder_of_child? hl)
      · cases hm
    · cases hm
  · cases h

theorem importedNames_subset_preorder {n m : Node} (h : m ∈ Scope.importedNames n) : m ∈ n.preorder := by
  obtain ⟨clause, hc, hm⟩ := List.mem_flatMap.1 h
  have hcn := mem_preorder_of_mem_namedChildren hc
  split at hm
  · exact preorder_trans n hcn (mem_preorder_of_mem_namedChildren (List.mem_filter.1 hm).1)
  split at hm
  · obtain ⟨part, hp, hm⟩ := List.mem_flatMap.1 hm
    exact preorder_trans n hcn (preorder_trans clause (mem_preorder_of_mem_namedChildren hp) (fromPart_subset_preorder hm))
  · cases hm

theorem leaf_mem_of_mem_row {n : Node} {kinds : List String} {reach : Scope.Reach} {kind : String} {leaves : List Node}
    {m : Making} (h : m ∈ row n kinds reach kind leaves) : m.leaf ∈ leaves := by
  unfold row at h
  split at h
  · obtain ⟨leaf, hl, rfl⟩ := List.mem_map.1 h; exact hl
  · cases h

theorem leaf_mem_of_mem_loopRow {src : Bytes} {n : Node} {m : Making} (h : m ∈ loopRow src n) : m.leaf ∈ patternAt n "left" := by
  unfold loopRow at h
  split at h
  · obtain ⟨w, -, hm⟩ := List.mem_flatMap.1 h
    obtain ⟨leaf, hl, rfl⟩ := List.mem_map.1 hm; exact hl
  · cases h

theorem leaf_mem_preorder {src : Bytes} {isBody : Bool} {n : Node} {m : Making} (h : m ∈ makings src isBody n) :
    m.leaf ∈ n.preorder := by
  simp only [makings, List.mem_append] at h
  rcases h with ((((((((((h | h) | h) | h) | h) | h) | h) | h) | h) | h) | h) | h
  · exact nameOf_subset_preorder (leaf_mem_of_mem_row h)
  · exact nameOf_subset_preorder (leaf_mem_of_mem_row h)
  · exact parameters_subset_preorder (leaf_mem_of_mem_row h)
  · exact nameOf_subset_preorder (leaf_mem_of_mem_row h)
  · exact nameOf_subset_preorder (leaf_mem_of_mem_row h)
  · split at h
    · cases h
    · rcases List.mem_append.1 h with h | h
      · exact patternAt_subset_preorder (leaf_mem_of_mem_row h)
      · exact patternAt_subset_preorder (leaf_mem_of_mem_loopRow h)
  · exact patterns_subset_preorder (leaf_mem_of_mem_row h)
  · exact patterns_subset_preorder (leaf_mem_of_mem_row h)
  · exact importedNames_subset_preorder (leaf_mem_of_mem_row h)
  · exact mem_preorder_of_mem_namedChildren (List.mem_of_find?_eq_some (Option.mem_toList.1 (leaf_mem_of_mem_row h)))
  · exact nameOf_subset_preorder (leaf_mem_of_mem_row h)
  · exact nameOf_subset_preorder (List.mem_filter.1 (leaf_mem_of_mem_row h)).1

/-- **What the analysis of a node reads stands at or below the node.** -/
theorem readNodes_subset_preorder {src : Bytes} {isBody : Bool} {n m : Node} (h : m ∈ readNodes src isBody n) :
    m ∈ n.preorder := by
  rcases List.mem_append.1 h with h | h
  · unfold keywords at h
    split at h
    · exact mem_preorder_of_child? (Option.mem_toList.1 h)
    · cases h
  · obtain ⟨k, hk, rfl⟩ := List.mem_map.1 h
    exact leaf_mem_preorder hk

theorem readable_eq {src : Bytes} {isBody : Bool} {n : Node} (h : ∀ m ∈ readNodes src isBody n, Readable src m) :
    Scope.readable src isBody n = (makings src isBody n).map (Making.declaration src) := by
  unfold Scope.readable
  rw [declarations_eq h]; rfl

mutual

/-- **A tree whose texts can be read is analyzed without a fault.** -/
theorem fault?_eq_none (src : Bytes) : ∀ (isBody : Bool) (n : Node), (∀ m ∈ n.preorder, Readable src m) →
    Scope.fault? src isBody n = none
  | isBody, .mk l cs, h => by
    have hd := @declarations_eq src isBody (.mk l cs) (fun m hm => h m (readNodes_subset_preorder hm))
    rw [Scope.fault?, hd]
    exact faultIn?_eq_none src _ cs (fun m hm => h m (by rw [Node.preorder]; exact List.mem_cons_of_mem _ hm))

theorem faultIn?_eq_none (src : Bytes) : ∀ (seeksBody : Bool) (cs : List Node),
    (∀ m ∈ Node.preorderAll cs, Readable src m) → Scope.faultIn? src seeksBody cs = none
  | _, [], _ => by rw [Scope.faultIn?]
  | seeksBody, c :: cs, h => by
    rw [Node.preorderAll] at h
    rw [Scope.faultIn?]
    simp only [fault?_eq_none src _ c (fun m hm => h m (List.mem_append_left _ hm))]
    exact faultIn?_eq_none src _ cs (fun m hm => h m (List.mem_append_right _ hm))

end

/-- **A tree whose texts can be read has scopes.** -/
theorem exists_ofTree {src : Bytes} {root : Node} (h : ∀ m ∈ root.preorder, Readable src m) :
    ∃ scopes, Scopes.ofTree src root = .ok scopes := by
  have hfault := fault?_eq_none src false root h
  exact ⟨_, by rw [Scopes.ofTree, hfault]⟩

end Lexical
end TagAlias
