import TagAlias.Component.Tag
import TagAlias.Proofs.Syntax.Preorder
/-!
# Places of a tree and the nodes that belong to a method

A place is reached by its path (`mem_places_iff`), and further places from there by what is left of theirs.  A component
method owns the nodes below it up to the next component methods; its references are those that the owned nodes make
(`ok_mem_references_iff`), and between it and a node it owns stands no other component method (`owned_spec`).
-/
namespace TagAlias
namespace Node

/-- The place at the end of a path that begins at a node. -/
def placeAt? (parent : Option String) (path : List Nat) : Node → List Nat → Option Place
  | n, [] => some ⟨parent, path, n⟩
  | n, i :: rel => n.children[i]?.bind (fun c => placeAt? (some n.kind) (path ++ [i]) c rel)

@[simp] theorem placeAt?_nil (parent : Option String) (path : List Nat) (n : Node) :
    n.placeAt? parent path [] = some ⟨parent, path, n⟩ := by
  cases n; rfl

theorem placeAt?_cons (parent : Option String) (path : List Nat) (n : Node) (i : Nat) (rel : List Nat) :
    n.placeAt? parent path (i :: rel) =
      n.children[i]?.bind (fun c => c.placeAt? (some n.kind) (path ++ [i]) rel) := by
  cases n; rfl

theorem path_of_placeAt? : ∀ (rel : List Nat) {parent : Option String} {path : List Nat} {n : Node} {p : Place},
    n.placeAt? parent path rel = some p → p.path = path ++ rel
  | [], parent, path, n, p, h => by
    rw [placeAt?_nil, Option.some.injEq] at h
    rw [← h, List.append_nil]
  | i :: rel, parent, path, n, p, h => by
    rw [placeAt?_cons] at h
    obtain ⟨c, -, hc⟩ := Option.bind_eq_some_iff.1 h
    rw [path_of_placeAt? rel hc, List.append_assoc]; rfl

theorem at?_of_placeAt? : ∀ (rel : List Nat) {parent : Option String} {path : List Nat} {n : Node} {p : Place},
    n.placeAt? parent path rel = some p → n.at? rel = some p.node
  | [], parent, path, n, p, h => by
    rw [placeAt?_nil, Option.some.injEq] at h
    rw [at?_nil, ← h]
  | i :: rel, parent, path, n, p, h => by
    rw [placeAt?_cons] at h
    obtain ⟨c, hc, h⟩ := Option.bind_eq_some_iff.1 h
    rw [at?_cons, hc]; exact at?_of_placeAt? rel h

theorem placeAt?_append : ∀ (rel rel' : List Nat) {parent : Option String} {path : List Nat} {n : Node} {p : Place},
    n.placeAt? parent path rel = some p →
    n.placeAt? parent path (rel ++ rel') = p.node.placeAt? p.parent p.path rel'
  | [], rel', parent, path, n, p, h => by
    rw [placeAt?_nil, Option.some.injEq] at h
    rw [← h, List.nil_append]
  | i :: rel, rel', parent, path, n, p, h => by
    rw [placeAt?_cons] at h
    obtain ⟨c, hc, h⟩ := Option.bind_eq_some_iff.1 h
    rw [List.cons_append, placeAt?_cons, hc]; exact placeAt?_append rel rel' h

mutual

/-- **The places of a tree are those at the ends of its paths.** -/
theorem mem_places_iff : ∀ (parent : Option String) (path : List Nat) (n : Node) (p : Place),
    p ∈ n.places parent path ↔ ∃ rel, n.placeAt? parent path rel = some p
  | parent, path, mk l cs, p => by
    rw [places, List.mem_cons, mem_placesAll_iff]
    constructor
    · rintro (rfl | ⟨j, rel, h⟩)
      · exact ⟨[], by rw [placeAt?_nil]⟩
      · rw [Nat.zero_add] at h
        exact ⟨j :: rel, by rw [placeAt?_cons]; exact h⟩
    · rintro ⟨rel, h⟩
      cases rel with
      | nil => rw [placeAt?_nil, Option.some.injEq] at h; exact .inl h.symm
      | cons j rel => rw [placeAt?_cons] at h; exact .inr ⟨j, rel, by rw [Nat.zero_add]; exact h⟩

theorem mem_placesAll_iff : ∀ (parent : String) (path : List Nat) (i : Nat) (cs : List Node) (p : Place),
    p ∈ placesAll parent path i cs ↔
      ∃ (j : Nat) (rel : List Nat), cs[j]?.bind (fun c => c.placeAt? (some parent) (path ++ [i + j]) rel) = some p
  | parent, path, i, [], p => by simp [placesAll]
  | parent, path, i, c :: cs, p => by
    rw [placesAll, List.mem_append, mem_places_iff, mem_placesAll_iff]
    constructor
    · rintro (⟨rel, h⟩ | ⟨j, rel, h⟩)
      · exact ⟨0, rel, h⟩
      · exact ⟨j + 1, rel, by rwa [Nat.add_assoc, Nat.add_comm 1 j] at h⟩
    · rintro ⟨j, rel, h⟩
      cases j with
      | zero => exact .inl ⟨rel, h⟩
      | succ j => exact .inr ⟨j, rel, by rwa [Nat.add_assoc, Nat.add_comm 1 j]⟩

end

theorem placeAt?_of_mem_places {root : Node} {p : Place} (h : p ∈ root.places none []) :
    root.placeAt? none [] p.path = some p := by
  obtain ⟨rel, hrel⟩ := (mem_places_iff none [] root p).1 h
  rw [path_of_placeAt? rel hrel]; exact hrel

theorem at?_of_mem_places {root : Node} {p : Place} (h : p ∈ root.places none []) : root.at? p.path = some p.node :=
  at?_of_placeAt? p.path (placeAt?_of_mem_places h)

theorem mem_preorder_of_mem_places {root : Node} {p : Place} (h : p ∈ root.places none []) : p.node ∈ root.preorder :=
  mem_preorder_of_at? p.path (at?_of_mem_places h)

end Node

namespace Component

mutual

/-- A node and all below it up to the next component methods, with their paths. -/
def owned (src : Bytes) (stem : String) (path : List Nat) : Node → List (List Nat × Node)
  | .mk l cs => (path, .mk l cs) :: ownedIn src stem l.kind path 0 cs

/-- The same below the children of a node, from the one of number `i` on. -/
def ownedIn (src : Bytes) (stem parent : String) (path : List Nat) (i : Nat) : List Node → List (List Nat × Node)
  | [] => []
  | n :: r =>
    (match methodName? src stem (some parent) n with
      | .ok none => owned src stem (path ++ [i]) n
      | _ => [])
    ++ ownedIn src stem parent path (i + 1) r

end

mutual

/-- **The references of a method are those made by the nodes that it owns.** -/
theorem ok_mem_references_iff (src : Bytes) (stem : String) (binds : List Nat → String → Bool) (r : TagReference) :
    ∀ (path : List Nat) (n : Node), .ok r ∈ references src stem binds path n ↔
      ∃ e ∈ owned src stem path n, .ok r ∈ tagReferences src binds e.1 e.2
  | path, .mk l cs => by
    rw [references, owned, List.mem_append, ok_mem_referencesIn_iff]
    simp only [List.mem_cons, exists_eq_or_imp]

theorem ok_mem_referencesIn_iff (src : Bytes) (stem : String) (binds : List Nat → String → Bool) (r : TagReference) :
    ∀ (parent : String) (path : List Nat) (i : Nat) (cs : List Node),
      .ok r ∈ referencesIn src stem binds parent path i cs ↔
        ∃ e ∈ ownedIn src stem parent path i cs, .ok r ∈ tagReferences src binds e.1 e.2
  | parent, path, i, [] => by simp [referencesIn, ownedIn]
  | parent, path, i, c :: cs => by
    rw [referencesIn, ownedIn, List.mem_append, ok_mem_referencesIn_iff src stem binds r parent path (i + 1) cs]
    simp only [List.mem_append, or_and_right, exists_or]
    refine or_congr ?_ Iff.rfl
    cases methodName? src stem (some parent) c with
    | error f => simp
    | ok name? =>
      cases name? with
      | some name => simp
      | none => exact ok_mem_references_iff src stem binds r _ c

end

mutual

/-- **On the way from a method to a node that it owns no other component method stands.** -/
theorem owned_spec (src : Bytes) (stem : String) : ∀ (parent : Option String) (path : List Nat) (n : Node),
    ∀ e ∈ owned src stem path n, ∃ rel, e.1 = path ++ rel ∧ ∀ rel' p, rel' <+: rel →
      n.placeAt? parent path rel' = some p → p.path = path ∨ methodName? src stem p.parent p.node = .ok none
  | parent, path, .mk l cs, e, he => by
    rw [owned] at he
    rcases List.mem_cons.1 he with rfl | he
    · refine ⟨[], (List.append_nil _).symm, fun rel' p hpre hp => .inl ?_⟩
      rw [List.prefix_nil.1 hpre, Node.placeAt?_nil, Option.some.injEq] at hp
      rw [← hp]
    · obtain ⟨j, rel, hpath, hway⟩ := ownedIn_spec src stem l.kind path 0 cs e he
      refine ⟨j :: rel, by rw [hpath, Nat.zero_add], fun rel' p hpre hp => ?_⟩
      cases rel' with
      | nil =>
        rw [Node.placeAt?_nil, Option.some.injEq] at hp
        exact .inl (by rw [← hp])
      | cons k rel' =>
        obtain ⟨rfl, hbelow⟩ := List.cons_prefix_cons.1 hpre
        rw [Node.placeAt?_cons] at hp
        exact .inr (hway rel' p hbelow (by rw [Nat.zero_add]; exact hp))

theorem ownedIn_spec (src : Bytes) (stem : String) : ∀ (parent : String) (path : List Nat) (i : Nat) (cs : List Node),
    ∀ e ∈ ownedIn src stem parent path i cs, ∃ j rel, e.1 = path ++ (i + j) :: rel ∧ ∀ rel' p, rel' <+: rel →
      cs[j]?.bind (fun c => c.placeAt? (some parent) (path ++ [i + j]) rel') = some p →
      methodName? src stem p.parent p.node = .ok none
  | parent, path, i, [], e, he => by rw [ownedIn] at he; cases he
  | parent, path, i, c :: cs, e, he => by
    rw [ownedIn] at he
    rcases List.mem_append.1 he with he | he
    · split at he
      · next hname =>
        obtain ⟨rel, hpath, hway⟩ := owned_spec src stem (some parent) (path ++ [i]) c e he
        refine ⟨0, rel, by rw [hpath, List.append_assoc]; rfl, fun rel' p hpre hp => ?_⟩
        rcases hway rel' p hpre hp with h | h
        · rw [Node.path_of_placeAt? rel' hp] at h
          have hnil : rel' = [] := by simpa using h
          subst hnil
          have hp : c.placeAt? (some parent) (path ++ [i + 0]) [] = some p := hp
          rw [Node.placeAt?_nil, Option.some.injEq] at hp
          rw [← hp]; exact hname
        · exact h
      · cases he
    · obtain ⟨j, rel, hpath, hway⟩ := ownedIn_spec src stem parent path (i + 1) cs e he
      exact ⟨j + 1, rel, by rw [hpath, Nat.add_assoc, Nat.add_comm 1 j], fun rel' p hpre hp =>
        hway rel' p hpre (by rwa [Nat.add_assoc, Nat.add_comm 1 j])⟩

end

/-- A component method on the way from another one to a node that this owns is that one itself. -/
theorem path_eq_of_owned {src : Bytes} {stem : String} {root : Node} {p p' : Place} (hp : p ∈ root.places none [])
    (hp' : p' ∈ root.places none []) {name : String} (hname : methodName? src stem p'.parent p'.node = .ok (some name))
    {e : List Nat × Node} (he : e ∈ owned src stem p.path p.node) (hfrom : p.path <+: p'.path) (hto : p'.path <+: e.1) :
    p'.path = p.path := by
  obtain ⟨rel, hpath, hway⟩ := owned_spec src stem p.parent p.path p.node e he
  obtain ⟨rel', hrel'⟩ := hfrom
  rw [hpath, ← hrel', List.prefix_append_right_inj] at hto
  have hplace : p.node.placeAt? p.parent p.path rel' = some p' := by
    rw [← Node.placeAt?_append p.path rel' (Node.placeAt?_of_mem_places hp), hrel', Node.placeAt?_of_mem_places hp']
  rcases hway rel' p' hto hplace with h | h
  · exact h
  · rw [hname] at h; cases h

end Component
end TagAlias
