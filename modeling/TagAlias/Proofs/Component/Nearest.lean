import Mathlib.Data.List.Lex
import TagAlias.Proofs.Component.Places
/-!
# The nearest component method of a place

A tag counts by the root of its name (`Node.leftmost?_eq_some_iff`) and a component method by its own name
(`methodName?_eq_some_iff`).  The places of a tree are listed in the order of their paths (`places_pairwise`).  What lies
below a component method and below no other one further in are the places whose nearest component method it is
(`mem_ownPlaces_iff_nearest`), and every place in a component method has just one that is nearest (`exists_nearest`,
`IsNearest.unique`).
-/
namespace TagAlias
namespace Node

/-! ## Roots of names -/

/-- Going down a qualified name by so many levels, each time to what is qualified or else to its first part, ends there. -/
inductive RootsAt : Node → Nat → Node → Prop where
  | here {n : Node} (hplain : n.kind ∉ memberKinds) : RootsAt n 0 n
  | object {n c r : Node} {k : Nat} (hmember : n.kind ∈ memberKinds) (hobject : n.child? "object" = some c)
      (hdown : RootsAt c k r) : RootsAt n (k + 1) r
  | first {n c r : Node} {k : Nat} (hmember : n.kind ∈ memberKinds) (hobject : n.child? "object" = none)
      (hfirst : n.namedChildren.head? = some c) (hdown : RootsAt c k r) : RootsAt n (k + 1) r

theorem RootsAt.pos_iff {n r : Node} {k : Nat} (h : n.RootsAt k r) : 0 < k ↔ n.kind ∈ memberKinds := by
  cases h with
  | here hplain => exact ⟨fun hpos => absurd hpos (Nat.lt_irrefl 0), fun hmember => absurd hmember hplain⟩
  | object hmember => exact ⟨fun _ => hmember, fun _ => Nat.succ_pos _⟩
  | first hmember => exact ⟨fun _ => hmember, fun _ => Nat.succ_pos _⟩

theorem leftmostObject?_of_find? {c : Node} : ∀ (cs : List Node), cs.find? (·.field == "object") = some c →
    leftmostObject? cs = c.leftmost?
  | [], h => by cases h
  | d :: cs, h => by
    rw [leftmostObject?]
    rw [List.find?_cons] at h
    cases hd : d.field == "object" with
    | true => rw [hd] at h; rw [if_pos rfl, Option.some.inj h]
    | false => rw [hd] at h; rw [if_neg Bool.false_ne_true]; exact leftmostObject?_of_find? cs h

theorem leftmostNamed?_of_head? {c : Node} : ∀ (cs : List Node), (cs.filter (·.named)).head? = some c →
    leftmostNamed? cs = c.leftmost?
  | [], h => by cases h
  | d :: cs, h => by
    rw [leftmostNamed?]
    cases hd : d.named with
    | true =>
      rw [List.filter_cons, hd, if_pos rfl, List.head?_cons] at h
      rw [if_pos rfl, Option.some.inj h]
    | false =>
      rw [List.filter_cons, hd, if_neg Bool.false_ne_true] at h
      rw [if_neg Bool.false_ne_true]; exact leftmostNamed?_of_head? cs h

theorem any_object_iff (cs : List Node) :
    cs.any (·.field == "object") = true ↔ cs.find? (·.field == "object") ≠ none := by
  rw [← Option.isSome_iff_ne_none, List.find?_isSome, List.any_eq_true]

mutual

theorem rootsAt_of_leftmost? : ∀ (n : Node) {r : Node}, n.leftmost? = some r → ∃ k, n.RootsAt k r
  | mk l cs, r, h => by
    rw [leftmost?] at h
    by_cases hmember : memberKinds.contains l.kind = true
    · have hkind : (mk l cs).kind ∈ memberKinds := List.contains_iff_mem.1 hmember
      rw [if_pos hmember] at h
      by_cases hany : cs.any (·.field == "object") = true
      · rw [if_pos hany] at h
        obtain ⟨c, k, hc, hdown⟩ := rootsAt_of_leftmostObject? cs h
        exact ⟨k + 1, .object hkind hc hdown⟩
      · rw [if_neg hany] at h
        obtain ⟨c, k, hc, hdown⟩ := rootsAt_of_leftmostNamed? cs h
        have hnone : cs.find? (·.field == "object") = none := by
          by_contra hsome
          exact hany ((any_object_iff cs).2 hsome)
        exact ⟨k + 1, .first hkind hnone hc hdown⟩
    · rw [if_neg hmember] at h
      have hplain : (mk l cs).kind ∉ memberKinds := fun hkind => hmember (List.contains_iff_mem.2 hkind)
      exact ⟨0, Option.some.inj h ▸ .here hplain⟩

theorem rootsAt_of_leftmostObject? : ∀ (cs : List Node) {r : Node}, leftmostObject? cs = some r →
    ∃ c k, cs.find? (·.field == "object") = some c ∧ c.RootsAt k r
  | [], r, h => by rw [leftmostObject?] at h; cases h
  | c :: cs, r, h => by
    rw [leftmostObject?] at h
    rw [List.find?_cons]
    cases hc : c.field == "object" with
    | true =>
      rw [hc, if_pos rfl] at h
      obtain ⟨k, hdown⟩ := rootsAt_of_leftmost? c h
      exact ⟨c, k, rfl, hdown⟩
    | false =>
      rw [hc, if_neg Bool.false_ne_true] at h
      exact rootsAt_of_leftmostObject? cs h

theorem rootsAt_of_leftmostNamed? : ∀ (cs : List Node) {r : Node}, leftmostNamed? cs = some r →
    ∃ c k, (cs.filter (·.named)).head? = some c ∧ c.RootsAt k r
  | [], r, h => by rw [leftmostNamed?] at h; cases h
  | c :: cs, r, h => by
    rw [leftmostNamed?] at h
    cases hc : c.named with
    | true =>
      rw [hc, if_pos rfl] at h
      rw [List.filter_cons, hc, if_pos rfl]
      obtain ⟨k, hdown⟩ := rootsAt_of_leftmost? c h
      exact ⟨c, k, rfl, hdown⟩
    | false =>
      rw [hc, if_neg Bool.false_ne_true] at h
      rw [List.filter_cons, hc, if_neg Bool.false_ne_true]
      exact rootsAt_of_leftmostNamed? cs h

end

theorem leftmost?_of_rootsAt {n r : Node} {k : Nat} (h : n.RootsAt k r) : n.leftmost? = some r := by
  induction h with
  | @here n hplain =>
    cases n with
    | mk l cs =>
      have hplain : ¬ memberKinds.contains l.kind = true := fun hmember => hplain (List.contains_iff_mem.1 hmember)
      rw [leftmost?, if_neg hplain]
  | @object n c r k hmember hobject _ ih =>
    cases n with
    | mk l cs =>
      have hmember : memberKinds.contains l.kind = true := List.contains_iff_mem.2 hmember
      have hobject : cs.find? (·.field == "object") = some c := hobject
      have hany : cs.any (·.field == "object") = true := (any_object_iff cs).2 (by rw [hobject]; exact Option.some_ne_none c)
      rw [leftmost?, if_pos hmember, if_pos hany, leftmostObject?_of_find? cs hobject, ih]
  | @first n c r k hmember hobject hfirst _ ih =>
    cases n with
    | mk l cs =>
      have hmember : memberKinds.contains l.kind = true := List.contains_iff_mem.2 hmember
      have hany : ¬ cs.any (·.field == "object") = true := fun hany => (any_object_iff cs).1 hany hobject
      rw [leftmost?, if_pos hmember, if_neg hany, leftmostNamed?_of_head? cs hfirst, ih]

/-- **The root of a name is where going down it ends.** -/
theorem leftmost?_eq_some_iff {n r : Node} : n.leftmost? = some r ↔ ∃ k, n.RootsAt k r :=
  ⟨rootsAt_of_leftmost? n, fun ⟨_, h⟩ => leftmost?_of_rootsAt h⟩

/-! ## The order of places -/

mutual

theorem map_node_places : ∀ (parent : Option String) (path : List Nat) (n : Node),
    (n.places parent path).map (·.node) = n.preorder
  | parent, path, mk l cs => by rw [places, preorder, List.map_cons, map_node_placesAll]

theorem map_node_placesAll : ∀ (parent : String) (path : List Nat) (i : Nat) (cs : List Node),
    (placesAll parent path i cs).map (·.node) = preorderAll cs
  | parent, path, i, [] => by rw [placesAll, preorderAll, List.map_nil]
  | parent, path, i, c :: cs => by rw [placesAll, preorderAll, List.map_append, map_node_places, map_node_placesAll]

end

theorem exists_path_of_mem_placesAll {parent : String} {path : List Nat} {i : Nat} {cs : List Node} {p : Place}
    (h : p ∈ placesAll parent path i cs) : ∃ j rel, p.path = path ++ (i + j) :: rel := by
  obtain ⟨j, rel, hj⟩ := (mem_placesAll_iff parent path i cs p).1 h
  obtain ⟨c, -, hc⟩ := Option.bind_eq_some_iff.1 hj
  exact ⟨j, rel, by rw [path_of_placeAt? rel hc, List.append_assoc]; rfl⟩

mutual

/-- **The places of a tree come in the order of their paths.** -/
theorem places_pairwise : ∀ (parent : Option String) (path : List Nat) (n : Node),
    (n.places parent path).Pairwise (fun p q => p.path < q.path)
  | parent, path, mk l cs => by
    rw [places, List.pairwise_cons]
    refine ⟨?_, placesAll_pairwise l.kind path 0 cs⟩
    intro q hq
    obtain ⟨j, rel, hpath⟩ := exists_path_of_mem_placesAll hq
    have hlt : path ++ [] < path ++ (0 + j) :: rel := List.append_left_lt (List.nil_lt_cons _ _)
    rw [hpath]
    rwa [List.append_nil] at hlt

theorem placesAll_pairwise : ∀ (parent : String) (path : List Nat) (i : Nat) (cs : List Node),
    (placesAll parent path i cs).Pairwise (fun p q => p.path < q.path)
  | parent, path, i, [] => by rw [placesAll]; exact List.Pairwise.nil
  | parent, path, i, c :: cs => by
    rw [placesAll, List.pairwise_append]
    refine ⟨places_pairwise (some parent) (path ++ [i]) c, placesAll_pairwise parent path (i + 1) cs, ?_⟩
    intro p hp q hq
    obtain ⟨rel, hrel⟩ := (mem_places_iff _ _ c p).1 hp
    obtain ⟨j, rel', hpath⟩ := exists_path_of_mem_placesAll hq
    rw [path_of_placeAt? rel hrel, hpath, List.append_assoc]
    exact List.append_left_lt (List.cons_lt_cons_iff.2 (.inl (by omega)))

end

theorem eq_of_path_eq {root : Node} {p q : Place} (hp : p ∈ root.places none []) (hq : q ∈ root.places none [])
    (h : p.path = q.path) : p = q := by
  have hp := placeAt?_of_mem_places hp
  rw [h, placeAt?_of_mem_places hq] at hp
  exact (Option.some.inj hp).symm

end Node

namespace Component

/-! ## Tags and component methods -/

/-- An opening or self-closing element whose name has an identifier as its root, so many levels down. -/
structure IsTag (n : Node) (levels : Nat) (root : Node) : Prop where
  kind : n.kind ∈ tagKinds
  name : ∃ name, n.child? "name" = some name ∧ name.RootsAt levels root
  identifier : root.kind = "identifier"

/-- A method of a class body with a plain name that begins with the stem. -/
structure IsMethod (src : Bytes) (stem : String) (p : Place) (name : String) : Prop where
  kind : p.node.kind ∈ methodKinds
  parent : p.parent = some "class_body"
  named : ∃ m, p.node.child? "name" = some m ∧ m.kind ∈ plainNameKinds ∧ m.text src = .ok name
  stem : stem.toList <+: name.toList

theorem tagRoot?_eq_some_iff {n name root : Node} : tagRoot? n = some (name, root) ↔
    n.kind ∈ tagKinds ∧ n.child? "name" = some name ∧ (∃ k, name.RootsAt k root) ∧ root.kind = "identifier" := by
  rw [← Node.leftmost?_eq_some_iff]
  constructor
  · intro h
    unfold tagRoot? at h
    split at h
    · next hkind =>
      split at h
      · next name' hname =>
        split at h
        · next root' hroot =>
          split at h
          · next hid =>
            obtain ⟨rfl, rfl⟩ := Prod.mk.inj (Option.some.inj h)
            exact ⟨List.contains_iff_mem.1 hkind, hname, hroot, beq_iff_eq.1 hid⟩
          · cases h
        · cases h
      · cases h
    · cases h
  · rintro ⟨hkind, hname, hroot, hid⟩
    unfold tagRoot?
    rw [if_pos (List.contains_iff_mem.2 hkind), hname]
    simp only [hroot, hid, beq_self_eq_true, if_true]

theorem isSome_tagRoot?_iff {n : Node} : (tagRoot? n).isSome = true ↔ ∃ levels root, IsTag n levels root := by
  rw [Option.isSome_iff_exists]
  constructor
  · rintro ⟨⟨name, root⟩, h⟩
    obtain ⟨hkind, hname, ⟨k, hk⟩, hid⟩ := tagRoot?_eq_some_iff.1 h
    exact ⟨k, root, hkind, ⟨name, hname, hk⟩, hid⟩
  · rintro ⟨k, root, hkind, ⟨name, hname, hk⟩, hid⟩
    exact ⟨(name, root), tagRoot?_eq_some_iff.2 ⟨hkind, hname, ⟨k, hk⟩, hid⟩⟩

theorem IsTag.unique {n r r' : Node} {k k' : Nat} (h : IsTag n k r) (h' : IsTag n k' r') : r = r' ∧ (0 < k ↔ 0 < k') := by
  obtain ⟨name, hname, hroot⟩ := h.name
  obtain ⟨name', hname', hroot'⟩ := h'.name
  obtain rfl := Option.some.inj (hname.symm.trans hname')
  refine ⟨Option.some.inj ((Node.leftmost?_of_rootsAt hroot).symm.trans (Node.leftmost?_of_rootsAt hroot')), ?_⟩
  rw [hroot.pos_iff, hroot'.pos_iff]

theorem methodName?_eq_some_iff {src : Bytes} {stem name : String} {p : Place} :
    methodName? src stem p.parent p.node = .ok (some name) ↔ IsMethod src stem p name := by
  constructor
  · intro h
    unfold methodName? at h
    split at h
    · next hhere =>
      obtain ⟨hkind, hparent⟩ := Bool.and_eq_true_iff.1 hhere
      split at h
      · next m hm =>
        split at h
        · next hplain =>
          cases htext : m.text src with
          | error f => rw [htext] at h; cases h
          | ok s =>
            rw [htext, Except.map, Except.ok.injEq] at h
            split at h
            · next hstem =>
              obtain rfl := Option.some.inj h
              exact ⟨List.contains_iff_mem.1 hkind, beq_iff_eq.1 hparent, ⟨m, hm, List.contains_iff_mem.1 hplain, htext⟩,
                List.isPrefixOf_iff_prefix.1 hstem⟩
            · cases h
        · cases h
      · cases h
    · cases h
  · rintro ⟨hkind, hparent, ⟨m, hm, hplain, htext⟩, hstem⟩
    have hhere : (methodKinds.contains p.node.kind && p.parent == some "class_body") = true :=
      Bool.and_eq_true_iff.2 ⟨List.contains_iff_mem.2 hkind, beq_iff_eq.2 hparent⟩
    have hstem : stem.toList.isPrefixOf name.toList = true := List.isPrefixOf_iff_prefix.2 hstem
    unfold methodName?
    rw [if_pos hhere, hm]
    simp only [List.contains_iff_mem.2 hplain, htext, Except.map, hstem, if_true]

/-! ## What lies in a method and in no other one further in -/

def IsMethodPlace (src : Bytes) (stem : String) (p : Place) : Prop := ∃ name, IsMethod src stem p name

mutual

/-- The places of a node and of all below it up to the next component methods. -/
def ownPlaces (src : Bytes) (stem : String) (parent : Option String) (path : List Nat) : Node → List Place
  | .mk l cs => ⟨parent, path, .mk l cs⟩ :: ownPlacesIn src stem l.kind path 0 cs

/-- Those below the children of a node, from the one of number `i` on. -/
def ownPlacesIn (src : Bytes) (stem parent : String) (path : List Nat) (i : Nat) : List Node → List Place
  | [] => []
  | n :: r =>
    (match methodName? src stem (some parent) n with
      | .ok (some _) => []
      | _ => ownPlaces src stem (some parent) (path ++ [i]) n)
    ++ ownPlacesIn src stem parent path (i + 1) r

end

mutual

theorem ownPlaces_sublist (src : Bytes) (stem : String) : ∀ (parent : Option String) (path : List Nat) (n : Node),
    (ownPlaces src stem parent path n).Sublist (n.places parent path)
  | parent, path, .mk l cs => by
    rw [ownPlaces, Node.places]
    exact (ownPlacesIn_sublist src stem l.kind path 0 cs).cons_cons _

theorem ownPlacesIn_sublist (src : Bytes) (stem : String) : ∀ (parent : String) (path : List Nat) (i : Nat)
    (cs : List Node), (ownPlacesIn src stem parent path i cs).Sublist (Node.placesAll parent path i cs)
  | parent, path, i, [] => by rw [ownPlacesIn]; exact List.nil_sublist _
  | parent, path, i, c :: cs => by
    rw [ownPlacesIn, Node.placesAll]
    refine List.Sublist.append ?_ (ownPlacesIn_sublist src stem parent path (i + 1) cs)
    split
    · exact List.nil_sublist _
    · exact ownPlaces_sublist src stem (some parent) (path ++ [i]) c

end

theorem places_sublist_placesAll {c : Node} {parent : String} {path : List Nat} : ∀ (cs : List Node) (i j : Nat),
    cs[j]? = some c → (c.places (some parent) (path ++ [i + j])).Sublist (Node.placesAll parent path i cs)
  | [], i, j, h => by cases h
  | d :: cs, i, j, h => by
    rw [Node.placesAll]
    cases j with
    | zero =>
      rw [List.getElem?_cons_zero, Option.some.injEq] at h
      subst h
      exact List.sublist_append_left _ _
    | succ j =>
      have hrest : (c.places (some parent) (path ++ [i + 1 + j])).Sublist (Node.placesAll parent path (i + 1) cs) :=
        places_sublist_placesAll cs (i + 1) j h
      rw [Nat.add_assoc, Nat.add_comm 1 j] at hrest
      exact hrest.trans (List.sublist_append_right _ _)

theorem places_sublist : ∀ (rel : List Nat) {parent : Option String} {path : List Nat} {n : Node} {p : Place},
    n.placeAt? parent path rel = some p → (p.node.places p.parent p.path).Sublist (n.places parent path)
  | [], parent, path, n, p, h => by
    rw [Node.placeAt?_nil, Option.some.injEq] at h
    rw [← h]
  | i :: rel, parent, path, .mk l cs, p, h => by
    rw [Node.placeAt?_cons] at h
    obtain ⟨c, hc, hdown⟩ := Option.bind_eq_some_iff.1 h
    have hchild : (c.places (some l.kind) (path ++ [0 + i])).Sublist (Node.placesAll l.kind path 0 cs) :=
      places_sublist_placesAll cs 0 i hc
    rw [Nat.zero_add] at hchild
    rw [Node.places]
    exact ((places_sublist rel hdown).trans hchild).cons _

/-- On the way from a node to a place no component method stands, but for the node itself. -/
def Clear (src : Bytes) (stem : String) (parent : Option String) (path : List Nat) (n : Node) (rel : List Nat) : Prop :=
  ∀ rel' p, rel' <+: rel → n.placeAt? parent path rel' = some p → IsMethodPlace src stem p → p.path = path

/-- The same on the way from a child. -/
def ClearIn (src : Bytes) (stem parent : String) (path : List Nat) (c : Node) (rel : List Nat) : Prop :=
  ∀ rel' p, rel' <+: rel → c.placeAt? (some parent) path rel' = some p → ¬ IsMethodPlace src stem p

theorem clear_nil (src : Bytes) (stem : String) (parent : Option String) (path : List Nat) (n : Node) :
    Clear src stem parent path n [] := by
  intro rel' p hway hp _
  rw [List.prefix_nil.1 hway, Node.placeAt?_nil, Option.some.injEq] at hp
  rw [← hp]

theorem clear_cons_iff {src : Bytes} {stem : String} {parent : Option String} {path : List Nat} {n c : Node} {i : Nat}
    {rel : List Nat} (hc : n.children[i]? = some c) :
    Clear src stem parent path n (i :: rel) ↔ ClearIn src stem n.kind (path ++ [i]) c rel := by
  constructor
  · intro h rel' p hway hp hmethod
    have hplace : n.placeAt? parent path (i :: rel') = some p := by rw [Node.placeAt?_cons, hc]; exact hp
    have hsame := h (i :: rel') p (List.cons_prefix_cons.2 ⟨rfl, hway⟩) hplace hmethod
    rw [Node.path_of_placeAt? rel' hp, List.append_assoc] at hsame
    simp at hsame
  · intro h rel' p hway hp hmethod
    cases rel' with
    | nil => exact clear_nil src stem parent path n [] p List.prefix_rfl hp hmethod
    | cons k rel' =>
      obtain ⟨rfl, hrest⟩ := List.cons_prefix_cons.1 hway
      rw [Node.placeAt?_cons, hc] at hp
      exact absurd hmethod (h rel' p hrest hp)

theorem clearIn_iff {src : Bytes} {stem parent : String} {path : List Nat} {c : Node} {rel : List Nat} :
    ClearIn src stem parent path c rel ↔
      ¬ IsMethodPlace src stem ⟨some parent, path, c⟩ ∧ Clear src stem (some parent) path c rel := by
  constructor
  · intro h
    refine ⟨h [] _ List.nil_prefix (Node.placeAt?_nil _ _ _), ?_⟩
    intro rel' p hway hp hmethod
    exact absurd hmethod (h rel' p hway hp)
  · rintro ⟨hhere, h⟩ rel' p hway hp hmethod
    have hsame := h rel' p hway hp hmethod
    rw [Node.path_of_placeAt? rel' hp] at hsame
    have hnil : rel' = [] := by simpa using hsame
    rw [hnil, Node.placeAt?_nil, Option.some.injEq] at hp
    exact hhere (hp ▸ hmethod)

mutual

theorem mem_ownPlaces_iff (src : Bytes) (stem : String) (q : Place) : ∀ (parent : Option String) (path : List Nat) (n : Node),
    q ∈ ownPlaces src stem parent path n ↔
      ∃ rel, n.placeAt? parent path rel = some q ∧ Clear src stem parent path n rel
  | parent, path, .mk l cs => by
    rw [ownPlaces, List.mem_cons, mem_ownPlacesIn_iff src stem q l.kind path 0 cs]
    constructor
    · rintro (rfl | ⟨j, rel, c, hc, hplace, hclear⟩)
      · exact ⟨[], Node.placeAt?_nil _ _ _, clear_nil src stem parent path _⟩
      · rw [Nat.zero_add] at hplace hclear
        refine ⟨j :: rel, ?_, (clear_cons_iff (n := .mk l cs) hc).2 hclear⟩
        rw [Node.placeAt?_cons, show (Node.mk l cs).children[j]? = some c from hc]
        exact hplace
    · rintro ⟨rel, hplace, hclear⟩
      cases rel with
      | nil => rw [Node.placeAt?_nil, Option.some.injEq] at hplace; exact .inl hplace.symm
      | cons j rel =>
        rw [Node.placeAt?_cons] at hplace
        obtain ⟨c, hc, hplace⟩ := Option.bind_eq_some_iff.1 hplace
        rw [clear_cons_iff hc] at hclear
        exact .inr ⟨j, rel, c, hc, by rw [Nat.zero_add]; exact hplace, by rw [Nat.zero_add]; exact hclear⟩

theorem mem_ownPlacesIn_iff (src : Bytes) (stem : String) (q : Place) : ∀ (parent : String) (path : List Nat) (i : Nat)
    (cs : List Node), q ∈ ownPlacesIn src stem parent path i cs ↔
      ∃ j rel c, cs[j]? = some c ∧ c.placeAt? (some parent) (path ++ [i + j]) rel = some q ∧
        ClearIn src stem parent (path ++ [i + j]) c rel
  | parent, path, i, [] => by simp [ownPlacesIn]
  | parent, path, i, c :: cs => by
    have hhere : q ∈ (match methodName? src stem (some parent) c with
          | .ok (some _) => []
          | _ => ownPlaces src stem (some parent) (path ++ [i]) c) ↔
        ∃ rel, c.placeAt? (some parent) (path ++ [i]) rel = some q ∧ ClearIn src stem parent (path ++ [i]) c rel := by
      have hname := fun name => @methodName?_eq_some_iff src stem name ⟨some parent, path ++ [i], c⟩
      simp only [clearIn_iff]
      split
      · next name hsome =>
        have hmethod : IsMethodPlace src stem ⟨some parent, path ++ [i], c⟩ := ⟨name, (hname name).1 hsome⟩
        exact ⟨fun h => absurd h List.not_mem_nil, fun ⟨_, _, hnot, _⟩ => absurd hmethod hnot⟩
      · next hnone =>
        have hnot : ¬ IsMethodPlace src stem ⟨some parent, path ++ [i], c⟩ :=
          fun ⟨name, hmethod⟩ => hnone name ((hname name).2 hmethod)
        rw [mem_ownPlaces_iff src stem q (some parent) (path ++ [i]) c]
        exact exists_congr (fun rel => and_congr_right (fun _ => (and_iff_right hnot).symm))
    rw [ownPlacesIn, List.mem_append, hhere, mem_ownPlacesIn_iff src stem q parent path (i + 1) cs]
    constructor
    · rintro (⟨rel, hplace, hclear⟩ | ⟨j, rel, d, hd, hplace, hclear⟩)
      · exact ⟨0, rel, c, rfl, hplace, hclear⟩
      · rw [Nat.add_assoc, Nat.add_comm 1 j] at hplace hclear
        exact ⟨j + 1, rel, d, hd, hplace, hclear⟩
    · rintro ⟨j, rel, d, hd, hplace, hclear⟩
      cases j with
      | zero =>
        rw [List.getElem?_cons_zero, Option.some.injEq] at hd
        subst hd
        exact .inl ⟨rel, hplace, hclear⟩
      | succ j =>
        refine .inr ⟨j, rel, d, hd, ?_, ?_⟩
        · rwa [Nat.add_assoc, Nat.add_comm 1 j]
        · rwa [Nat.add_assoc, Nat.add_comm 1 j]

end

/-! ## The nearest method -/

/-- A component method in which a place lies, while every other one in which it lies is further out. -/
structure IsNearest (src : Bytes) (stem : String) (root : Node) (p q : Place) : Prop where
  place : p ∈ root.places none []
  method : IsMethodPlace src stem p
  around : p.path <+: q.path
  nearest : ∀ p' ∈ root.places none [], IsMethodPlace src stem p' → p'.path <+: q.path → p'.path <+: p.path

section

variable {src : Bytes} {stem : String} {root : Node}

/-- **What lies in a component method and in no other one further in is what has it as its nearest.** -/
theorem mem_ownPlaces_iff_nearest {p : Place} (hp : p ∈ root.places none []) (hmethod : IsMethodPlace src stem p) (q : Place) :
    q ∈ ownPlaces src stem p.parent p.path p.node ↔ q ∈ root.places none [] ∧ IsNearest src stem root p q := by
  have hway : ∀ rel, p.node.placeAt? p.parent p.path rel = root.placeAt? none [] (p.path ++ rel) := fun rel =>
    (Node.placeAt?_append p.path rel (Node.placeAt?_of_mem_places hp)).symm
  rw [mem_ownPlaces_iff]
  constructor
  · rintro ⟨rel, hplace, hclear⟩
    have hpath : q.path = p.path ++ rel := Node.path_of_placeAt? rel hplace
    have hq : q ∈ root.places none [] := (Node.mem_places_iff none [] root q).2 ⟨_, (hway rel).symm.trans hplace⟩
    refine ⟨hq, hp, hmethod, hpath ▸ List.prefix_append _ _, ?_⟩
    intro p' hp' hmethod' haround
    rcases List.prefix_or_prefix_of_prefix haround (hpath ▸ List.prefix_append p.path rel) with hout | hin
    · exact hout
    · obtain ⟨rel', hrel'⟩ := hin
      rw [hpath, ← hrel', List.prefix_append_right_inj] at haround
      have hplace' : p.node.placeAt? p.parent p.path rel' = some p' := by
        rw [hway, hrel', Node.placeAt?_of_mem_places hp']
      exact (hclear rel' p' haround hplace' hmethod') ▸ List.prefix_rfl
  · rintro ⟨hq, -, -, ⟨rel, hrel⟩, hnearest⟩
    refine ⟨rel, by rw [hway, hrel, Node.placeAt?_of_mem_places hq], ?_⟩
    intro rel' p' hbelow hplace' hmethod'
    have hpath' : p'.path = p.path ++ rel' := Node.path_of_placeAt? rel' hplace'
    have hp' : p' ∈ root.places none [] :=
      (Node.mem_places_iff none [] root p').2 ⟨_, (hway rel').symm.trans hplace'⟩
    have haround : p'.path <+: q.path := by
      rw [hpath', ← hrel, List.prefix_append_right_inj]
      exact hbelow
    have hout := hnearest p' hp' hmethod' haround
    rw [hpath'] at hout ⊢
    have hlength := hout.length_le
    rw [List.length_append] at hlength
    rw [List.eq_nil_of_length_eq_zero (by omega : rel'.length = 0), List.append_nil]

theorem IsNearest.unique {p p' q : Place} (h : IsNearest src stem root p q) (h' : IsNearest src stem root p' q) : p = p' := by
  have hin := h.nearest p' h'.place h'.method h'.around
  have hout := h'.nearest p h.place h.method h.around
  exact Node.eq_of_path_eq h.place h'.place (hout.eq_of_length (Nat.le_antisymm hout.length_le hin.length_le))

/-- **A place in a component method has a nearest one.** -/
theorem exists_nearest {p q : Place} (hp : p ∈ root.places none []) (hmethod : IsMethodPlace src stem p)
    (haround : p.path <+: q.path) : ∃ p', IsNearest src stem root p' q := by
  by_cases hnearest : ∀ p' ∈ root.places none [], IsMethodPlace src stem p' → p'.path <+: q.path → p'.path <+: p.path
  · exact ⟨p, hp, hmethod, haround, hnearest⟩
  · -- another method is not further out, so it is further in
    push Not at hnearest
    obtain ⟨p', hp', hmethod', haround', hnot⟩ := hnearest
    have hin : p.path <+: p'.path := (List.prefix_or_prefix_of_prefix haround haround').resolve_right hnot
    have hlonger : p.path.length < p'.path.length := by
      refine Nat.lt_of_le_of_ne hin.length_le (fun hlength => hnot ?_)
      exact hin.eq_of_length hlength ▸ List.prefix_rfl
    have hbound := haround'.length_le
    exact exists_nearest hp' hmethod' haround'
termination_by q.path.length - p.path.length

end

end Component
end TagAlias
