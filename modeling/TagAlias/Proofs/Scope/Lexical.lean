import TagAlias.Proofs.Scope.Bindings
import TagAlias.Proofs.Scope.Reads
/-!
# Names resolve lexically

Where a declaration is received is read off the nodes around it: a scope is given by the way to the node that opens it,
a `Site` knows the scopes around its node, and `Site.receiver` names the one that takes a declaration.  `received` gathers
over the whole tree, in order, what a scope takes.  The analysis, which hands declarations up from below, and the chain,
which is read off on the way down, come to the same (`chainFrom_eq`).
-/
namespace TagAlias
namespace Lexical

open Scope (Reach Declaration)

/-- The way to the node that opens a scope, and the kind of the scope. -/
abbrev Frame := List Nat × String

/-- Whether variables are declared on a scope from anywhere inside. -/
def Frame.takesVariables (q : Frame) : Bool := q.2 == "function" || q.2 == "program"

/-- A node at the end of its path, with the scopes around it, innermost first. -/
structure Site where
  path : List Nat
  node : Node
  /-- Whether it is the body of a function. -/
  isBody : Bool
  around : List Frame

/-- The scopes at a node: the one that it opens, if it does, and those around it. -/
def Site.scopes (s : Site) : List Frame := ((Scope.opens s.isBody s.node).map (s.path, ·)).toList ++ s.around

mutual

/-- The nodes of a tree, parents first. -/
def sites (around : List Frame) (path : List Nat) (isBody : Bool) : Node → List Site
  | .mk l cs =>
    let here : Site := ⟨path, .mk l cs, isBody, around⟩
    here :: sitesAll here.scopes path (Scope.functionKinds.contains l.kind) 0 cs

/-- The same below the children from number `i` on, of which the first in the field `body` is the body of a function if
`seeksBody`. -/
def sitesAll (around : List Frame) (path : List Nat) (seeksBody : Bool) (i : Nat) : List Node → List Site
  | [] => []
  | n :: r =>
    let isBody := seeksBody && n.field == "body"
    sites around (path ++ [i]) isBody n ++ sitesAll around path (seeksBody && !isBody) (i + 1) r

end

def sitesOf (root : Node) : List Site := sites [([], "program")] [] false root

/-- The scope that takes a declaration from below: the innermost, or the innermost that takes variables. -/
def catcher (around : List Frame) : Reach → List Nat
  | .variable_ => ((around.find? Frame.takesVariables).map (·.1)).getD []
  | _ => (around.head?.map (·.1)).getD []

/-- The scope that takes a declaration made at a node. -/
def Site.receiver (s : Site) : Reach → List Nat
  | .own => s.path
  | r => catcher s.around r

/-- What a node declares, each with the scope that takes it. -/
def receipts (src : Bytes) (s : Site) : List (List Nat × Declaration) :=
  (makings src s.isBody s.node).map (fun m => (s.receiver m.reach, m.declaration src))

/-- What a scope takes from some nodes, in order. -/
def receivedFrom (src : Bytes) (ss : List Site) (q : List Nat) : List Declaration :=
  ((ss.flatMap (receipts src)).filter (·.1 == q)).map (·.2)

/-- The names that a scope of a program receives, with the kinds of their declarations, in order. -/
def received (src : Bytes) (root : Node) (q : List Nat) : List (String × String) :=
  Scope.asBindings (receivedFrom src (sitesOf root) q)

/-! ## Where declarations can go -/

/-- The scopes lie around what stands below the path, and one of them takes variables. -/
structure Encloses (around : List Frame) (path : List Nat) : Prop where
  takesVariables : ∃ q ∈ around, q.takesVariables = true
  outside : ∀ q ∈ around, ¬ path <+: q.1

theorem Encloses.catcher_mem {around : List Frame} {path : List Nat} (h : Encloses around path) (r : Reach) :
    ∃ q ∈ around, q.1 = catcher around r := by
  obtain ⟨v, hv, hvt⟩ := h.takesVariables
  have hhead : ∃ q ∈ around, q.1 = (around.head?.map (·.1)).getD [] := by
    cases around with
    | nil => cases hv
    | cons q qs => exact ⟨q, List.mem_cons_self, rfl⟩
  cases r with
  | own => exact hhead
  | around => exact hhead
  | variable_ =>
    cases hf : around.find? Frame.takesVariables with
    | none => exact absurd hvt (by simpa using List.find?_eq_none.1 hf v hv)
    | some q => exact ⟨q, List.mem_of_find?_eq_some hf, by simp [catcher, hf]⟩

theorem Encloses.child {around : List Frame} {path : List Nat} (h : Encloses around path) (n : Node) (isBody : Bool)
    (i : Nat) : Encloses (Site.scopes ⟨path, n, isBody, around⟩) (path ++ [i]) := by
  obtain ⟨v, hv, hvt⟩ := h.takesVariables
  refine ⟨⟨v, List.mem_append_right _ hv, hvt⟩, fun q hq hp => ?_⟩
  rcases List.mem_append.1 hq with hq | hq
  · obtain ⟨k, -, rfl⟩ := Option.map_eq_some_iff.1 (Option.mem_toList.1 hq)
    have hle : (path ++ [i]).length ≤ path.length := hp.length_le
    rw [List.length_append, List.length_singleton] at hle
    omega
  · exact h.outside q hq ((List.prefix_append path [i]).trans hp)

theorem receipts_eq {src : Bytes} {s : Site} (h : ∀ m ∈ s.node.preorder, Readable src m) :
    receipts src s = (Scope.readable src s.isBody s.node).map (fun d => (s.receiver d.reach, d)) := by
  rw [readable_eq (fun m hm => h m (readNodes_subset_preorder hm)), List.map_map]; rfl

theorem receiver_mem {s : Site} (h : Encloses s.around s.path) (r : Reach) :
    s.receiver r = s.path ∨ ∃ q ∈ s.around, q.1 = s.receiver r := by
  cases r with
  | own => exact .inl rfl
  | around => exact .inr (h.catcher_mem .around)
  | variable_ => exact .inr (h.catcher_mem .variable_)

theorem receipts_fst_mem {src : Bytes} {s : Site} (h : Encloses s.around s.path) {e : List Nat × Declaration}
    (he : e ∈ receipts src s) : e.1 = s.path ∨ ∃ q ∈ s.around, q.1 = e.1 := by
  obtain ⟨m, -, rfl⟩ := List.mem_map.1 he
  exact receiver_mem h m.reach

mutual

/-- **A declaration made in a subtree is received in it or by a scope around it.** -/
theorem received_inside (src : Bytes) : ∀ (around : List Frame) (path : List Nat) (isBody : Bool) (n : Node),
    Encloses around path → ∀ e ∈ (sites around path isBody n).flatMap (receipts src),
      path <+: e.1 ∨ ∃ q ∈ around, q.1 = e.1
  | around, path, isBody, .mk l cs, h, e, he => by
    rw [sites, List.flatMap_cons, List.mem_append] at he
    rcases he with he | he
    · rcases receipts_fst_mem h he with h1 | h1
      · exact .inl (h1 ▸ List.prefix_refl path)
      · exact .inr h1
    · rcases received_insideAll src _ path _ 0 cs (h.child (.mk l cs) isBody) e he with ⟨j, -, hj⟩ | ⟨q, hq, hqe⟩
      · exact .inl ((List.prefix_append path [j]).trans hj)
      · rcases List.mem_append.1 hq with hq | hq
        · obtain ⟨k, -, rfl⟩ := Option.map_eq_some_iff.1 (Option.mem_toList.1 hq)
          exact .inl (hqe ▸ List.prefix_refl path)
        · exact .inr ⟨q, hq, hqe⟩

theorem received_insideAll (src : Bytes) : ∀ (around : List Frame) (path : List Nat) (seeksBody : Bool) (i : Nat)
    (cs : List Node), (∀ j, Encloses around (path ++ [j])) →
    ∀ e ∈ (sitesAll around path seeksBody i cs).flatMap (receipts src),
      (∃ j, i ≤ j ∧ path ++ [j] <+: e.1) ∨ ∃ q ∈ around, q.1 = e.1
  | _, _, _, _, [], _, e, he => by rw [sitesAll] at he; cases he
  | around, path, seeksBody, i, c :: cs, h, e, he => by
    rw [sitesAll, List.flatMap_append, List.mem_append] at he
    rcases he with he | he
    · exact (received_inside src around _ _ c (h i) e he).imp_left (fun hp => ⟨i, Nat.le_refl i, hp⟩)
    · exact (received_insideAll src around path _ (i + 1) cs h e he).imp_left (fun ⟨j, hj, hp⟩ => ⟨j, by omega, hp⟩)

end

/-- Whether a declaration goes to one of the scopes. -/
def goesTo (around : List Frame) (e : List Nat × Declaration) : Bool := around.any (·.1 == e.1)

theorem goesTo_iff {around : List Frame} {e : List Nat × Declaration} : goesTo around e = true ↔ ∃ q ∈ around, q.1 = e.1 := by
  simp [goesTo]

/-- A declaration that leaves a subtree, with the scope around that takes it. -/
def toward (around : List Frame) (d : Declaration) : List Nat × Declaration := (catcher around d.reach, d)

/-- A node that opens a scope takes the declarations from below that the scope catches, and the rest goes on. -/
theorem catcher_scopes (s : Site) (d : Declaration) (hd : d.reach ≠ .own) :
    catcher s.scopes d.reach = match Scope.opens s.isBody s.node with
      | some kind => if Scope.catches kind d then s.path else catcher s.around d.reach
      | none => catcher s.around d.reach := by
  unfold Site.scopes Scope.catches
  cases ho : Scope.opens s.isBody s.node with
  | none => rfl
  | some kind =>
    cases hr : d.reach with
    | own => exact absurd hr hd
    | around => simp [catcher]
    | variable_ =>
      simp only [Option.map_some, Option.toList_some, List.singleton_append, catcher, List.find?_cons]
      cases ht : Frame.takesVariables (s.path, kind) with
      | true => simp only [Frame.takesVariables] at ht; simp [ht]
      | false => simp only [Frame.takesVariables] at ht; simp [ht]

mutual

/-- What leaves a subtree is meant for scopes around it. -/
theorem reach_of_leaving (src : Bytes) : ∀ (isBody : Bool) (n : Node), ∀ d ∈ (Scope.analyze src isBody n).1, d.reach ≠ .own
  | isBody, .mk l cs, d, hd => by
    have hhere : ∀ d ∈ (Scope.readable src isBody (.mk l cs)).filter (·.reach != .own), d.reach ≠ .own := fun d hd =>
      bne_iff_ne.1 (List.mem_filter.1 hd).2
    rw [Scope.analyze] at hd
    split at hd
    · rcases List.mem_append.1 hd with hd | hd
      · exact hhere d hd
      · exact reach_of_leavingAll src _ cs d hd
    · rcases List.mem_append.1 hd with hd | hd
      · exact hhere d hd
      · exact reach_of_leavingAll src _ cs d (List.mem_filter.1 hd).1

theorem reach_of_leavingAll (src : Bytes) : ∀ (seeksBody : Bool) (cs : List Node),
    ∀ d ∈ (Scope.analyzeAll src seeksBody cs).1, d.reach ≠ .own
  | _, [], d, hd => by rw [Scope.analyzeAll] at hd; cases hd
  | seeksBody, c :: cs, d, hd => by
    rw [Scope.analyzeAll] at hd
    rcases List.mem_append.1 hd with hd | hd
    · exact reach_of_leaving src _ c d hd
    · exact reach_of_leavingAll src _ cs d hd

end

theorem filter_goesTo_receipts (src : Bytes) {s : Site} (h : Encloses s.around s.path)
    (hread : ∀ m ∈ s.node.preorder, Readable src m) :
    (receipts src s).filter (goesTo s.around) =
      ((Scope.readable src s.isBody s.node).filter (·.reach != .own)).map (toward s.around) := by
  rw [receipts_eq hread, List.filter_map]
  have hout : ∀ d ∈ Scope.readable src s.isBody s.node,
      (goesTo s.around ∘ fun d => (s.receiver d.reach, d)) d = (d.reach != .own) := by
    intro d _
    cases hr : d.reach with
    | own =>
      rw [bne_self_eq_false, ← Bool.not_eq_true]
      simp only [Function.comp_apply, goesTo_iff, hr, Site.receiver]
      rintro ⟨q, hq, hqe⟩
      exact h.outside q hq (hqe ▸ List.prefix_refl _)
    | around => exact goesTo_iff.2 (by simpa only [hr, Site.receiver] using h.catcher_mem .around)
    | variable_ => exact goesTo_iff.2 (by simpa only [hr, Site.receiver] using h.catcher_mem .variable_)
  rw [List.filter_congr hout]
  apply List.map_congr_left
  intro d hd
  have hne := bne_iff_ne.1 (List.mem_filter.1 hd).2
  cases hr : d.reach with
  | own => exact absurd hr hne
  | around => simp [toward, Site.receiver, hr]
  | variable_ => simp [toward, Site.receiver, hr]

/-- Of what a node's scopes take, those around it take what its own does not catch. -/
theorem filter_goesTo_scopes {s : Site} (h : Encloses s.around s.path) (ds : List Declaration)
    (hds : ∀ d ∈ ds, d.reach ≠ .own) :
    (ds.map (toward s.scopes)).filter (goesTo s.around) =
      (match Scope.opens s.isBody s.node with
        | some kind => ds.filter (!Scope.catches kind ·)
        | none => ds).map (toward s.around) := by
  have hown : ∀ d, goesTo s.around (s.path, d) = false := fun d => by
    rw [← Bool.not_eq_true, goesTo_iff]
    rintro ⟨q, hq, hqe⟩
    exact h.outside q hq (hqe ▸ List.prefix_refl _)
  have hout : ∀ d, goesTo s.around (toward s.around d) = true := fun d =>
    goesTo_iff.2 (h.catcher_mem d.reach)
  induction ds with
  | nil => cases Scope.opens s.isBody s.node <;> rfl
  | cons d ds ih =>
    have ih := ih (fun d hd => hds d (List.mem_cons_of_mem _ hd))
    have hd := catcher_scopes s d (hds d List.mem_cons_self)
    rw [List.map_cons, List.filter_cons, ih, toward, hd]
    cases Scope.opens s.isBody s.node with
    | none => simp [toward, show goesTo s.around (catcher s.around d.reach, d) = true from hout d]
    | some kind =>
      cases hc : Scope.catches kind d with
      | true => simp [hown, hc]
      | false => simp [toward, hc, show goesTo s.around (catcher s.around d.reach, d) = true from hout d]

theorem filter_goesTo_of_scopes {s : Site} (es : List (List Nat × Declaration)) :
    es.filter (goesTo s.around) = (es.filter (goesTo s.scopes)).filter (goesTo s.around) := by
  rw [List.filter_filter]
  apply List.filter_congr
  intro e _
  cases he : goesTo s.around e with
  | false => rfl
  | true =>
    obtain ⟨q, hq, hqe⟩ := goesTo_iff.1 he
    have : goesTo s.scopes e = true := goesTo_iff.2 ⟨q, List.mem_append_right _ hq, hqe⟩
    rw [this]; rfl

mutual

/-- **What the scopes around a subtree receive from it is what leaves it in the analysis.** -/
theorem filter_goesTo_sites (src : Bytes) : ∀ (around : List Frame) (path : List Nat) (isBody : Bool) (n : Node),
    Encloses around path → (∀ m ∈ n.preorder, Readable src m) →
    ((sites around path isBody n).flatMap (receipts src)).filter (goesTo around) =
      (Scope.analyze src isBody n).1.map (toward around)
  | around, path, isBody, .mk l cs, h, hread => by
    have hbelow := filter_goesTo_sitesAll src _ path (Scope.functionKinds.contains l.kind) 0 cs (h.child (.mk l cs) isBody)
      (fun m hm => hread m (by rw [Node.preorder]; exact List.mem_cons_of_mem _ hm))
    have hhere := filter_goesTo_receipts src (s := ⟨path, .mk l cs, isBody, around⟩) h hread
    have hup := filter_goesTo_scopes (s := ⟨path, .mk l cs, isBody, around⟩) h _
      (reach_of_leavingAll src (Scope.functionKinds.contains l.kind) cs)
    rw [sites, List.flatMap_cons, List.filter_append, hhere,
      filter_goesTo_of_scopes (s := ⟨path, .mk l cs, isBody, around⟩), hbelow, hup, ← List.map_append, Scope.analyze]
    cases Scope.opens isBody (.mk l cs) <;> rfl

theorem filter_goesTo_sitesAll (src : Bytes) : ∀ (around : List Frame) (path : List Nat) (seeksBody : Bool) (i : Nat)
    (cs : List Node), (∀ j, Encloses around (path ++ [j])) → (∀ m ∈ Node.preorderAll cs, Readable src m) →
    ((sitesAll around path seeksBody i cs).flatMap (receipts src)).filter (goesTo around) =
      (Scope.analyzeAll src seeksBody cs).1.map (toward around)
  | _, _, _, _, [], _, _ => by rw [sitesAll, Scope.analyzeAll]; rfl
  | around, path, seeksBody, i, c :: cs, h, hread => by
    rw [Node.preorderAll] at hread
    rw [sitesAll, Scope.analyzeAll, List.flatMap_append, List.filter_append, List.map_append,
      filter_goesTo_sites src around _ _ c (h i) (fun m hm => hread m (List.mem_append_left _ hm)),
      filter_goesTo_sitesAll src around path _ (i + 1) cs h (fun m hm => hread m (List.mem_append_right _ hm))]

end

/-! ## What one scope receives -/

theorem receivedFrom_append (src : Bytes) (ss₁ ss₂ : List Site) (q : List Nat) :
    receivedFrom src (ss₁ ++ ss₂) q = receivedFrom src ss₁ q ++ receivedFrom src ss₂ q := by
  simp only [receivedFrom, List.flatMap_append, List.filter_append, List.map_append]

theorem receivedFrom_eq_nil {src : Bytes} {ss : List Site} {q : List Nat}
    (h : ∀ e ∈ ss.flatMap (receipts src), e.1 ≠ q) : receivedFrom src ss q = [] := by
  unfold receivedFrom
  rw [List.filter_eq_nil_iff.2 (fun e he => by simpa using h e he)]; rfl

/-- What the scopes around a scope's children do not receive is none of theirs. -/
theorem receivedFrom_eq_of_goesTo {src : Bytes} {around : List Frame} {ss : List Site} {q : Frame} (hq : q ∈ around) :
    receivedFrom src ss q.1 = (((ss.flatMap (receipts src)).filter (goesTo around)).filter (·.1 == q.1)).map (·.2) := by
  unfold receivedFrom
  rw [List.filter_filter]
  refine congrArg _ (List.filter_congr ?_)
  intro e _
  cases he : e.1 == q.1 with
  | false => rfl
  | true =>
    have : goesTo around e = true := goesTo_iff.2 ⟨q, hq, (beq_iff_eq.1 he).symm⟩
    rw [this]; rfl

/-- **A scope receives the node's own declarations and what it catches from below.** -/
theorem receivedFrom_own (src : Bytes) {around : List Frame} {path : List Nat} {isBody : Bool} {l : Label} {cs : List Node}
    {kind : String} (h : Encloses around path) (hread : ∀ m ∈ (Node.mk l cs).preorder, Readable src m)
    (ho : Scope.opens isBody (.mk l cs) = some kind) :
    receivedFrom src (sites around path isBody (.mk l cs)) path =
      (Scope.readable src isBody (.mk l cs)).filter (·.reach == .own) ++
        (Scope.analyzeAll src (Scope.functionKinds.contains l.kind) cs).1.filter (Scope.catches kind) := by
  let here : Site := ⟨path, .mk l cs, isBody, around⟩
  have hne : ∀ r, catcher around r ≠ path := fun r hr => by
    obtain ⟨q, hq, hqe⟩ := h.catcher_mem r
    exact h.outside q hq ((hqe.trans hr) ▸ List.prefix_refl _)
  have hscopes : (path, kind) ∈ here.scopes := List.mem_append_left _ (by simp [here, ho])
  have hbelow := filter_goesTo_sitesAll src here.scopes path (Scope.functionKinds.contains l.kind) 0 cs
    (h.child (.mk l cs) isBody) (fun m hm => hread m (by rw [Node.preorder]; exact List.mem_cons_of_mem _ hm))
  have hcaught : ∀ d ∈ (Scope.analyzeAll src (Scope.functionKinds.contains l.kind) cs).1,
      (toward here.scopes d).1 == path ↔ Scope.catches kind d = true := fun d hd => by
    have hd := catcher_scopes here d (reach_of_leavingAll src _ cs d hd)
    simp only [here, ho] at hd
    rw [toward, beq_iff_eq, hd]
    cases Scope.catches kind d with
    | true => simp
    | false => simpa using hne d.reach
  have hhere : receivedFrom src [here] path = (Scope.readable src isBody (.mk l cs)).filter (·.reach == .own) := by
    unfold receivedFrom
    rw [List.flatMap_cons, List.flatMap_nil, List.append_nil, receipts_eq (s := here) hread, List.filter_map, List.map_map]
    rw [show ((·.2) ∘ fun d : Declaration => (here.receiver d.reach, d)) = id from rfl, List.map_id]
    apply List.filter_congr
    intro d _
    cases hr : d.reach with
    | own => simp [Site.receiver, here, hr]
    | around =>
      simp only [Function.comp_apply, hr, Site.receiver, here]
      exact (beq_false_of_ne (hne .around)).trans rfl
    | variable_ =>
      simp only [Function.comp_apply, hr, Site.receiver, here]
      exact (beq_false_of_ne (hne .variable_)).trans rfl
  rw [sites, ← List.singleton_append, receivedFrom_append, hhere, receivedFrom_eq_of_goesTo hscopes, hbelow,
    List.filter_map, List.map_map, show ((·.2) ∘ toward here.scopes) = id from rfl, List.map_id]
  exact congrArg _ (List.filter_congr (fun d hd => Bool.eq_iff_iff.2 (hcaught d hd)))

theorem receivedFrom_below (src : Bytes) {around : List Frame} {path : List Nat} {isBody : Bool} {l : Label} {cs : List Node}
    (h : Encloses around path) {i : Nat} {q : List Nat} (hq : path ++ [i] <+: q) :
    receivedFrom src (sites around path isBody (.mk l cs)) q =
      receivedFrom src (sitesAll (Site.scopes ⟨path, .mk l cs, isBody, around⟩) path (Scope.functionKinds.contains l.kind)
        0 cs) q := by
  rw [sites, ← List.singleton_append, receivedFrom_append, receivedFrom_eq_nil, List.nil_append]
  intro e he heq
  rw [List.flatMap_cons, List.flatMap_nil, List.append_nil] at he
  rcases receipts_fst_mem (s := ⟨path, .mk l cs, isBody, around⟩) h he with h1 | ⟨r, hr, hre⟩
  · rw [← heq, h1] at hq
    have hle : (path ++ [i]).length ≤ path.length := hq.length_le
    rw [List.length_append, List.length_singleton] at hle
    omega
  · exact h.outside r hr (by rw [hre, heq]; exact (List.prefix_append path [i]).trans hq)

theorem eq_of_append_singleton_prefix {p q : List Nat} {i j : Nat} (hi : p ++ [i] <+: q) (hj : p ++ [j] <+: q) : i = j := by
  have h := List.prefix_of_prefix_length_le hi hj (by simp)
  simpa using h

theorem receivedFrom_head (src : Bytes) {around : List Frame} {path : List Nat} {seeksBody : Bool} {i : Nat} {c : Node}
    {cs : List Node} (h : ∀ j, Encloses around (path ++ [j])) {q : List Nat} (hq : path ++ [i] <+: q) :
    receivedFrom src (sitesAll around path seeksBody i (c :: cs)) q =
      receivedFrom src (sites around (path ++ [i]) (seeksBody && c.field == "body") c) q := by
  have htail : receivedFrom src (sitesAll around path (seeksBody && !(seeksBody && c.field == "body")) (i + 1) cs) q = [] := by
    refine receivedFrom_eq_nil (fun e he heq => ?_)
    rcases received_insideAll src around path _ (i + 1) cs h e he with ⟨j, hj, hp⟩ | ⟨r, hr, hre⟩
    · have := eq_of_append_singleton_prefix hq (heq ▸ hp)
      omega
    · exact (h i).outside r hr (by rw [hre, heq]; exact hq)
  rw [sitesAll, receivedFrom_append, htail, List.append_nil]

theorem receivedFrom_tail (src : Bytes) {around : List Frame} {path : List Nat} {seeksBody : Bool} {i j : Nat} {c : Node}
    {cs : List Node} (h : ∀ j, Encloses around (path ++ [j])) (hj : i < j) {q : List Nat} (hq : path ++ [j] <+: q) :
    receivedFrom src (sitesAll around path seeksBody i (c :: cs)) q =
      receivedFrom src (sitesAll around path (seeksBody && !(seeksBody && c.field == "body")) (i + 1) cs) q := by
  rw [sitesAll, receivedFrom_append, receivedFrom_eq_nil, List.nil_append]
  intro e he heq
  rcases received_inside src around _ _ c (h i) e he with hp | ⟨r, hr, hre⟩
  · have := eq_of_append_singleton_prefix hq (heq ▸ hp)
    omega
  · exact (h j).outside r hr (by rw [hre, heq]; exact hq)

/-! ## The chain of a node -/

/-- A scope that holds what it receives. -/
def Frame.scope (takes : List Nat → List Declaration) (q : Frame) : Scope :=
  (Scope.empty q.2).declareAll (Scope.asBindings (takes q.1))

theorem scope_analyze (src : Bytes) {around : List Frame} {path : List Nat} {isBody : Bool} {l : Label} {cs : List Node}
    (h : Encloses around path) (hread : ∀ m ∈ (Node.mk l cs).preorder, Readable src m) {takes : List Nat → List Declaration}
    (ht : takes path = receivedFrom src (sites around path isBody (.mk l cs)) path) :
    (Scope.analyze src isBody (.mk l cs)).2.scope.toList ++ around.map (Frame.scope takes) =
      (Site.scopes ⟨path, .mk l cs, isBody, around⟩).map (Frame.scope takes) := by
  rw [Scope.analyze, Site.scopes, List.map_append]
  cases ho : Scope.opens isBody (.mk l cs) with
  | none => rfl
  | some kind =>
    simp only [ScopeTree.scope, Option.toList_some, Option.map_some, List.map_cons, List.map_nil, Frame.scope, ht,
      receivedFrom_own src h hread ho]

mutual

/-- **The chain of a node is made of the scopes around it, each with what it receives.** -/
theorem chainFrom_eq (src : Bytes) (takes : List Nat → List Declaration) : ∀ (around : List Frame) (path : List Nat)
    (isBody : Bool) (n : Node), Encloses around path → (∀ m ∈ n.preorder, Readable src m) →
    (∀ q, path <+: q → takes q = receivedFrom src (sites around path isBody n) q) →
    ∀ s ∈ sites around path isBody n, ∃ rel, s.path = path ++ rel ∧
      Scopes.chainFrom (around.map (Frame.scope takes)) (Scope.analyze src isBody n).2 rel = s.scopes.map (Frame.scope takes)
  | around, path, isBody, .mk l cs, h, hread, ht, s, hs => by
    have hown := @scope_analyze src _ _ isBody _ _ h hread _ (ht path (List.prefix_refl path))
    rw [sites] at hs
    rcases List.mem_cons.1 hs with rfl | hs
    · exact ⟨[], (List.append_nil path).symm, by rw [← hown, Scopes.chainFrom]⟩
    · obtain ⟨j, rel, u, hpath, hu, hchain⟩ := chainFrom_eqAll src takes _ path (Scope.functionKinds.contains l.kind) 0 cs
        (h.child (.mk l cs) isBody) (fun m hm => hread m (by rw [Node.preorder]; exact List.mem_cons_of_mem _ hm))
        (fun j _ q hq => (ht q ((List.prefix_append path [j]).trans hq)).trans (receivedFrom_below src h hq)) s hs
      refine ⟨j :: rel, by rw [hpath, Nat.zero_add], ?_⟩
      have hchildren : (Scope.analyze src isBody (.mk l cs)).2.children =
          (Scope.analyzeAll src (Scope.functionKinds.contains l.kind) cs).2 := by
        rw [Scope.analyze]; cases Scope.opens isBody (.mk l cs) <;> rfl
      rw [Scopes.chainFrom, hchildren, hu]
      simp only
      rw [hown, hchain]

theorem chainFrom_eqAll (src : Bytes) (takes : List Nat → List Declaration) : ∀ (around : List Frame) (path : List Nat)
    (seeksBody : Bool) (i : Nat) (cs : List Node), (∀ j, Encloses around (path ++ [j])) →
    (∀ m ∈ Node.preorderAll cs, Readable src m) →
    (∀ j, i ≤ j → ∀ q, path ++ [j] <+: q → takes q = receivedFrom src (sitesAll around path seeksBody i cs) q) →
    ∀ s ∈ sitesAll around path seeksBody i cs, ∃ j rel u, s.path = path ++ (i + j) :: rel ∧
      (Scope.analyzeAll src seeksBody cs).2[j]? = some u ∧
      Scopes.chainFrom (around.map (Frame.scope takes)) u rel = s.scopes.map (Frame.scope takes)
  | _, _, _, _, [], _, _, _, s, hs => by rw [sitesAll] at hs; cases hs
  | around, path, seeksBody, i, c :: cs, h, hread, ht, s, hs => by
    rw [Node.preorderAll] at hread
    rw [sitesAll] at hs
    rcases List.mem_append.1 hs with hs | hs
    · obtain ⟨rel, hpath, hchain⟩ := chainFrom_eq src takes around _ _ c (h i)
        (fun m hm => hread m (List.mem_append_left _ hm))
        (fun q hq => (ht i (Nat.le_refl i) q hq).trans (receivedFrom_head src h hq)) s hs
      exact ⟨0, rel, _, by rw [hpath, List.append_assoc]; rfl, by rw [Scope.analyzeAll]; rfl, hchain⟩
    · obtain ⟨j, rel, u, hpath, hu, hchain⟩ := chainFrom_eqAll src takes around path _ (i + 1) cs h
        (fun m hm => hread m (List.mem_append_right _ hm))
        (fun j hj q hq => (ht j (by omega) q hq).trans (receivedFrom_tail src h (by omega) hq)) s hs
      refine ⟨j + 1, rel, u, by rw [hpath, Nat.add_assoc, Nat.add_comm 1 j], ?_, hchain⟩
      rw [Scope.analyzeAll, List.getElem?_cons_succ]; exact hu

end

end Lexical
end TagAlias
