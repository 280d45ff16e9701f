import TagAlias.Proofs.Alias.Grow
import TagAlias.Proofs.Alias.GraftScope
import TagAlias.Proofs.Component.BodyStart
/-!
# Where declarations come to stand

`Put` relates a tree to one with declarations and semicolons put in, wherever in it: what is put in at an offset belongs to
the node around the offset that has no child around it, unless it goes into a line comment.  In a well-nested tree there is
one such node (`Innermost.path_eq`), and for the points of a plan it is the body of the method that the point is for, so the
tree is a graft (`graft_of_put`).
-/
namespace TagAlias

namespace Node

/-- An offset lies inside a node and inside none of its children. -/
structure Innermost (o : Nat) (n : Node) : Prop where
  behind : n.start < o
  before : o < n.stop
  apart : ∀ c ∈ n.children, Misses o c

instance (o : Nat) (n : Node) : Decidable (Misses o n) := inferInstanceAs (Decidable (¬ (n.start < o ∧ o < n.stop)))

instance (o : Nat) (n : Node) : Decidable (Innermost o n) :=
  decidable_of_iff (n.start < o ∧ o < n.stop ∧ ∀ c ∈ n.children, Misses o c)
    ⟨fun ⟨hbehind, hbefore, hapart⟩ => ⟨hbehind, hbefore, hapart⟩, fun h => ⟨h.behind, h.before, h.apart⟩⟩

theorem at?_append : ∀ (p q : List Nat) {n m : Node}, n.at? p = some m → n.at? (p ++ q) = m.at? q
  | [], q, n, m, h => by
    rw [at?_nil, Option.some.injEq] at h
    rw [h, List.nil_append]
  | i :: p, q, n, m, h => by
    rw [at?_cons] at h
    obtain ⟨c, hc, h⟩ := Option.bind_eq_some_iff.1 h
    rw [List.cons_append, at?_cons, hc]
    exact at?_append p q h

/-- A node around an offset has nothing below it that is around the offset if none of its children is. -/
theorem Innermost.path_eq_of_prefix {root a b : Node} {o : Nat} {p q : List Nat} (hnested : root.Nested)
    (ha : root.at? p = some a) (hb : root.at? q = some b) (hao : Innermost o a) (hbo : Innermost o b) (hpre : p <+: q) :
    p = q := by
  obtain ⟨rel, rfl⟩ := hpre
  cases rel with
  | nil => rw [List.append_nil]
  | cons i rel =>
    rw [at?_append p (i :: rel) ha, at?_cons] at hb
    obtain ⟨c, hc, hb⟩ := Option.bind_eq_some_iff.1 hb
    have hmem := List.mem_of_getElem? hc
    have hspan := Nested.span c ((hnested.at? p ha).childrenIn.nested hmem) (mem_preorder_of_at? rel hb)
    have := hbo.behind
    have := hbo.before
    exact absurd ⟨by omega, by omega⟩ (hao.apart c hmem)

/-- **An offset of a well-nested tree has one innermost node at most.** -/
theorem Innermost.path_eq {root a b : Node} {o : Nat} {p q : List Nat} (hnested : root.Nested) (ha : root.at? p = some a)
    (hb : root.at? q = some b) (hao : Innermost o a) (hbo : Innermost o b) : p = q := by
  by_cases hpq : p <+: q
  · exact hao.path_eq_of_prefix hnested ha hb hbo hpq
  by_cases hqp : q <+: p
  · exact (hbo.path_eq_of_prefix hnested hb ha hao hqp).symm
  have := hao.behind
  have := hao.before
  have := hbo.behind
  have := hbo.before
  rcases hnested.disjoint p q ha hb hpq hqp with h | h <;> omega

end Node

namespace Alias

open Node (Innermost)

/-! ## Trees with declarations put in -/

mutual

/-- The second node is the first with declarations and semicolons put in. -/
inductive Put (g : Change) : Node → Node → Prop
  | mk {l l' : Label} {cs cs' : List Node} (alike : Alike l l')
      (leaf : cs = [] → g.loose l = false → (Node.mk l' cs').text g.after = (Node.mk l cs).text g.before)
      (below : PutIn g (g.names (.mk l cs)) cs cs') : Put g (.mk l cs) (.mk l' cs')

/-- The same for the children of a node, among which the declarations of the given names stand. -/
inductive PutIn (g : Change) : List String → List Node → List Node → Prop
  | nil : PutIn g [] [] []
  | keep {names : List String} {c c' : Node} {cs cs' : List Node} (first : Put g c c') (rest : PutIn g names cs cs') :
      PutIn g names (c :: cs) (c' :: cs')
  | semicolon {names : List String} {t : Node} {cs cs' : List Node} (token : IsSemicolon t) (rest : PutIn g names cs cs') :
      PutIn g names cs (t :: cs')
  | declare {name : String} {names : List String} {d : Node} {cs cs' : List Node}
      (declaration : IsDeclaration g.after g.stem name d) (rest : PutIn g names cs cs') : PutIn g (name :: names) cs (d :: cs')

end

/-- The same change, with other names in the bodies. -/
def Change.withNames (g : Change) (names : Node → List String) : Change := { g with names := names }

/-- The children of a node are given the names of its body, and no others, if it is a method with its own scope. -/
def Supplies (g : Change) (names : Node → List String) (p : Place) : Prop :=
  ∀ i c, p.node.children[i]? = some c → g.names c =
    if Component.isOwnScope g.before g.stem p.parent p.node && p.node.children.findIdx? (·.field == "body") == some i
    then names c else []

variable {g : Change} {names : Node → List String}

mutual

/-- **What is put into the bodies of methods alone is a graft.** -/
theorem graft_of_put (hblock : ∀ n, g.names n ≠ [] → n.kind = "statement_block") : ∀ (n' : Node) {n : Node}
    {parent : Option String} {path : List Nat}, Put g n n' → (∀ p ∈ n.places parent path, Supplies g names p) →
    (∀ m ∈ n'.preorder, ∃ at_, Position.ofOffset g.after m.start = .ok at_) →
    Graft (g.withNames names) (g.names n) parent n n'
  | .mk l' cs', .mk l cs, parent, path, .mk alike leaf below, hsupplies, hlocated => by
    refine .mk alike (hblock _) leaf (fun _ => hlocated _ (Node.self_mem_preorder _)) ?_
    have hhere : Supplies g names ⟨parent, path, .mk l cs⟩ := hsupplies _ (by rw [Node.places]; exact List.mem_cons_self)
    exact grafts_of_putIn hblock cs' (i := 0) below hhere
      (fun p hp => hsupplies p (by rw [Node.places]; exact List.mem_cons_of_mem _ hp))
      (fun m hm => hlocated m (by rw [Node.preorder]; exact List.mem_cons_of_mem _ hm))

theorem grafts_of_putIn (hblock : ∀ n, g.names n ≠ [] → n.kind = "statement_block") : ∀ (cs' : List Node) {cs : List Node}
    {seeksBody : Bool} {given : List String} {parent : String} {path : List Nat} {i : Nat}, PutIn g given cs cs' →
    (∀ j c, cs[j]? = some c → g.names c =
      if seeksBody && cs.findIdx? (·.field == "body") == some j then names c else []) →
    (∀ p ∈ Node.placesAll parent path i cs, Supplies g names p) →
    (∀ m ∈ Node.preorderAll cs', ∃ at_, Position.ofOffset g.after m.start = .ok at_) →
    Grafts (g.withNames names) seeksBody given parent cs cs'
  | [], _, _, _, _, _, _, .nil, _, _, _ => .nil
  | c' :: cs', _, seeksBody, _, _, path, i, @PutIn.keep _ _ c _ cs _ first rest, hhere, hsupplies, hlocated => by
    have hfirst : (if seeksBody && c.field == "body" then names c else []) = g.names c := by
      have h := hhere 0 c rfl
      rw [h, List.findIdx?_cons]
      cases c.field == "body" <;> cases seeksBody <;> simp
    refine .keep ?_ ?_
    · show Graft (g.withNames names) (if seeksBody && c.field == "body" then names c else []) _ _ _
      rw [hfirst]
      exact graft_of_put hblock c' first
        (fun p (hp : p ∈ c.places _ (path ++ [i])) => hsupplies p (by rw [Node.placesAll]; exact List.mem_append_left _ hp))
        (fun m hm => hlocated m (by rw [Node.preorderAll]; exact List.mem_append_left _ hm))
    · refine grafts_of_putIn hblock cs' (i := i + 1) rest (fun j b hb => ?_)
        (fun p hp => hsupplies p (by rw [Node.placesAll]; exact List.mem_append_right _ hp))
        (fun m hm => hlocated m (by rw [Node.preorderAll]; exact List.mem_append_right _ hm))
      rw [hhere (j + 1) b hb, List.findIdx?_cons]
      cases c.field == "body" <;> cases seeksBody <;> simp
  | t :: cs', _, _, _, _, _, _, .semicolon token rest, hhere, hsupplies, hlocated =>
    .semicolon token (grafts_of_putIn hblock cs' rest hhere hsupplies
      (fun m hm => hlocated m (by rw [Node.preorderAll]; exact List.mem_append_right _ hm)))
  | d :: cs', _, _, _, _, _, _, .declare declaration rest, hhere, hsupplies, hlocated =>
    .declare declaration (grafts_of_putIn hblock cs' rest hhere hsupplies
      (fun m hm => hlocated m (by rw [Node.preorderAll]; exact List.mem_append_right _ hm)))

end

/-! ## The points of a plan in a tree -/

/-- A comment that goes on to the end of its line. -/
def isLineComment (src : Bytes) (n : Node) : Bool := n.kind == "comment" && (src.slice n.start n.stop).take 2 == [0x2f, 0x2f]

/-- Whether a line comment ends at an offset, so that what is put in there goes on with the comment. -/
def isHeld (src : Bytes) (root : Node) (o : Nat) : Bool := root.preorder.any (fun n => isLineComment src n && n.stop == o)

/-- The names of the declarations that come to stand in a block: those put in at offsets of which it is the innermost node,
unless a line comment holds them. -/
def landed (src : Bytes) (root : Node) (plan : Plan) (n : Node) : List String :=
  if n.kind == "statement_block" then
    (plan.ascending.filter (fun q => decide (Innermost q.offset.toNat n) && !isHeld src root q.offset.toNat)).flatMap (·.names)
  else []

/-- The names that a body gets outside line comments. -/
def openNames (src : Bytes) (root : Node) (plan : Plan) (body : Node) : List String :=
  match plan.pointIn src body with
  | some q => if isHeld src root q.offset.toNat then [] else q.names
  | none => []

/-- A method with its own scope whose body, a block, takes its declarations at a point. -/
structure TakenBy (src : Bytes) (stem : String) (root : Node) (q : InsertionPoint) (p : Place) (body : Node) : Prop where
  place : p ∈ root.places none []
  own : Component.isOwnScope src stem p.parent p.node = true
  child : p.node.child? "body" = some body
  block : body.kind = "statement_block"
  start : ∃ o, Component.bodyStart src body = .ok (o, q.lead) ∧ q.offset = (o : Int) ∧
    q.separator = Component.separatorAt src o
  innermost : Innermost q.offset.toNat body

section

variable {src : Bytes} {stem : String} {root : Node} {plan : Plan} (hnested : root.Nested) (hnodup : plan.offsets.Nodup)
  (htaken : ∀ q ∈ plan.points, ∃ p body, TakenBy src stem root q p body)

/-- The path of a method's body. -/
theorem TakenBy.at? {q : InsertionPoint} {p : Place} {body : Node} (h : TakenBy src stem root q p body) :
    ∃ i, p.node.children.findIdx? (·.field == "body") = some i ∧ root.at? (p.path ++ [i]) = some body := by
  have hbody := h.child
  rw [Node.child?, List.find?_eq_bind_findIdx?_getElem?] at hbody
  obtain ⟨i, hi, hbody⟩ := Option.bind_eq_some_iff.1 hbody
  refine ⟨i, hi, ?_⟩
  rw [Node.at?_append p.path [i] (Node.at?_of_mem_places h.place), Node.at?_cons, hbody]
  exact Node.at?_nil body

include hnested in
/-- The innermost node of a point is the body that takes the declarations. -/
theorem TakenBy.eq_of_innermost {q : InsertionPoint} {p p' : Place} {body c : Node} {i : Nat}
    (h : TakenBy src stem root q p' body) (hp : p ∈ root.places none []) (hc : p.node.children[i]? = some c)
    (hin : Innermost q.offset.toNat c) :
    c = body ∧ Component.isOwnScope src stem p.parent p.node = true ∧
      p.node.children.findIdx? (·.field == "body") = some i := by
  obtain ⟨i', hi', hat'⟩ := h.at?
  have hat : root.at? (p.path ++ [i]) = some c := by
    rw [Node.at?_append p.path [i] (Node.at?_of_mem_places hp), Node.at?_cons, hc]
    exact Node.at?_nil c
  have hpath := Innermost.path_eq hnested hat hat' hin h.innermost
  obtain ⟨hpath, hindex⟩ := List.append_inj' hpath rfl
  have hplace := Node.placeAt?_of_mem_places hp
  rw [hpath, Node.placeAt?_of_mem_places h.place, Option.some.injEq] at hplace
  subst hplace
  refine ⟨?_, h.own, ?_⟩
  · rw [hpath.symm, hindex, hat', Option.some.injEq] at hat
    exact hat.symm
  · rw [hi']
    exact congrArg some (List.cons.inj hindex).1.symm

/-- The bodies of methods with their own scopes are blocks, inside which their declarations go. -/
def OpensBodies (src : Bytes) (stem : String) (root : Node) : Prop :=
  ∀ p ∈ root.places none [], Component.isOwnScope src stem p.parent p.node = true →
    ∀ body, p.node.child? "body" = some body → body.kind = "statement_block" ∧ ∀ o lead, Component.bodyStart src body = .ok (o, lead) → Innermost o body

theorem filter_eq_singleton {α : Type} [DecidableEq α] {f : α → Bool} {as : List α} {a : α} (hnodup : as.Nodup)
    (ha : a ∈ as) (h : ∀ b ∈ as, f b = true ↔ b = a) : as.filter f = [a] := by
  rw [List.filter_congr (q := (· == a)) (fun b hb => by rw [Bool.eq_iff_iff, h b hb, beq_iff_eq]), List.filter_beq,
    List.count_eq_one_of_mem hnodup ha]
  rfl

theorem landed_eq_nil {n : Node} (h : ∀ q ∈ plan.points, ¬ Innermost q.offset.toNat n) : landed src root plan n = [] := by
  have hnone : plan.ascending.filter (fun q => decide (Innermost q.offset.toNat n) && !isHeld src root q.offset.toNat) = [] := by
    refine List.filter_eq_nil_iff.2 (fun q hq hboth => ?_)
    rw [Bool.and_eq_true, decide_eq_true_eq] at hboth
    exact h q (plan.ascending_perm.mem_iff.1 hq) hboth.1
  rw [landed, hnone, List.flatMap_nil, ite_self]

/-- In a block that is the innermost node of one point at most, its names come to stand. -/
theorem landed_block {n : Node} (hkind : n.kind = "statement_block") (hnodup : plan.offsets.Nodup)
    (h : ∀ q ∈ plan.points, Innermost q.offset.toNat n ↔ plan.pointIn src n = some q) :
    landed src root plan n = openNames src root plan n := by
  have hnodup' : plan.ascending.Nodup := plan.ascending_perm.nodup_iff.2 (List.Nodup.of_map _ hnodup)
  have hpoint : ∀ q ∈ plan.ascending, (decide (Innermost q.offset.toNat n) && !isHeld src root q.offset.toNat) = true ↔
      plan.pointIn src n = some q ∧ isHeld src root q.offset.toNat = false := by
    intro q hq
    rw [Bool.and_eq_true, decide_eq_true_eq, h q (plan.ascending_perm.mem_iff.1 hq), Bool.not_eq_true']
  rw [landed, if_pos (beq_iff_eq.2 hkind), openNames]
  cases hin : plan.pointIn src n with
  | none =>
    rw [List.filter_eq_nil_iff.2 (fun q hq hboth => ?_), List.flatMap_nil]
    rw [hpoint q hq, hin] at hboth
    cases hboth.1
  | some q =>
    cases hheld : isHeld src root q.offset.toNat with
    | true =>
      rw [List.filter_eq_nil_iff.2 (fun q' hq' hboth => ?_), List.flatMap_nil]
      · simp only [hheld, if_true]
      · rw [hpoint q' hq', hin, Option.some.injEq] at hboth
        rw [← hboth.1, hheld] at hboth
        cases hboth.2
    | false =>
      have hq := plan.ascending_perm.mem_iff.2 (point_of_pointIn hin).1
      rw [filter_eq_singleton hnodup' hq (fun q' hq' => ?_), List.flatMap_singleton]
      · simp only [hheld, Bool.false_eq_true, if_false]
      · rw [hpoint q' hq', hin, Option.some.injEq]
        constructor
        · rintro ⟨rfl, -⟩
          rfl
        · rintro rfl
          exact ⟨rfl, hheld⟩

include hnested hnodup htaken in
/-- **Declarations come to stand in the bodies that take them, and nowhere else.** -/
theorem landed_child (hbodies : OpensBodies src stem root) {p : Place} (hp : p ∈ root.places none []) {i : Nat} {c : Node}
    (hc : p.node.children[i]? = some c) : landed src root plan c =
      if Component.isOwnScope src stem p.parent p.node && p.node.children.findIdx? (·.field == "body") == some i
      then openNames src root plan c else [] := by
  split
  · next hcond =>
    rw [Bool.and_eq_true, beq_iff_eq] at hcond
    have hchild : p.node.child? "body" = some c := by
      rw [Node.child?, List.find?_eq_bind_findIdx?_getElem?, hcond.2, Option.bind_some, hc]
    obtain ⟨hkind, hopen⟩ := hbodies p hp hcond.1 c hchild
    refine landed_block hkind hnodup (fun q hq => ⟨fun hin => ?_, fun hin => ?_⟩)
    · obtain ⟨p', body, hq'⟩ := htaken q hq
      obtain ⟨rfl, -⟩ := hq'.eq_of_innermost hnested hp hc hin
      obtain ⟨o, hstart, ho, -⟩ := hq'.start
      rw [Plan.pointIn, hstart, ← Plan.point?_of_mem hnodup hq, ho]
    · obtain ⟨-, o, lead, hstart, ho⟩ := point_of_pointIn hin
      rw [ho]
      exact hopen o lead hstart
  · next hcond =>
    refine landed_eq_nil (fun q hq hin => hcond ?_)
    obtain ⟨p', body, hq'⟩ := htaken q hq
    obtain ⟨-, hown, hindex⟩ := hq'.eq_of_innermost hnested hp hc hin
    rw [hown, hindex]
    exact beq_self_eq_true (some i)

include hnested htaken in
theorem landed_root : landed src root plan root = [] := by
  refine landed_eq_nil (fun q hq hin => ?_)
  obtain ⟨p, body, hq⟩ := htaken q hq
  obtain ⟨i, -, hat⟩ := hq.at?
  have hpath := Innermost.path_eq hnested (Node.at?_nil root) hat hin hq.innermost
  simp at hpath

/-- The change from a text to one with the declarations of a plan put in.  What goes into comments changes their texts. -/
def putting (src code : Bytes) (stem : String) (root : Node) (plan : Plan) : Change :=
  ⟨src, code, stem, landed src root plan, fun l => l.kind == "comment"⟩

include hnested hnodup htaken in
/-- **A tree with the declarations of a plan put in, wherever they come to stand, is a graft.** -/
theorem graft_of_putting (hbodies : OpensBodies src stem root) {code : Bytes} {root' : Node}
    (h : Put (putting src code stem root plan) root root')
    (hlocated : ∀ m ∈ root'.preorder, ∃ at_, Position.ofOffset code m.start = .ok at_) :
    Graft ((putting src code stem root plan).withNames (openNames src root plan)) [] none root root' := by
  have hgraft := graft_of_put (g := putting src code stem root plan) (fun n hn => ?_) root' h
    (fun p (hp : p ∈ root.places none []) i c hc => landed_child hnested hnodup htaken hbodies hp hc) hlocated
  · rwa [show (putting src code stem root plan).names root = [] from landed_root hnested htaken] at hgraft
  · by_contra hkind
    exact hn (by rw [show (putting src code stem root plan).names n = landed src root plan n from rfl, landed,
      if_neg (fun hk => hkind (beq_iff_eq.1 hk))])

end

end Alias
end TagAlias
