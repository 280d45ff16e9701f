import Mathlib.Data.List.TakeWhile
import TagAlias.Proofs.Alias.Graft
import TagAlias.Proofs.Alias.Spliced
import TagAlias.Proofs.Component.Method
import TagAlias.Proofs.Component.Places
import TagAlias.Proofs.Syntax.Nested
/-!
# The tree with a plan carried out

`grow` is the tree of the text with a plan carried out: all nodes are kept, their offsets go where the text went, and the
bodies of the component methods get the declarations of their points, between the children that the offset parts
(`insertionIndex_parts`).  It is a graft (`graft_grow`), since nothing is put in inside a leaf.
-/
namespace TagAlias

namespace Component

/-- A child of a body that counts as a statement. -/
def isStatement (n : Node) : Bool := n.named && n.kind != "comment"

/-- How many children of a body stand in front of its declarations: those before the first statement that is no directive,
else those up to the last directive, else the opening brace. -/
def insertionIndex (body : Node) : Nat :=
  let isFirst := fun c => isStatement c && !isDirective c
  if body.children.any isFirst then body.children.findIdx isFirst
  else if body.children.any isStatement then body.children.length - body.children.reverse.findIdx isStatement
  else 1

theorem statements_eq (body : Node) : statements body = body.children.filter isStatement := by
  unfold statements Node.namedChildren isStatement
  rw [List.filter_filter]
  exact List.filter_congr (fun c _ => Bool.and_comm _ _)

variable {body : Node}

/-- In front of the first statement that is no directive. -/
theorem parts_first (hin : Node.NestedIn body.start body.stop body.children) {s : Node}
    (hs : ((statements body).dropWhile isDirective).head? = some s) :
    Node.Parts s.start (insertionIndex body) body.children := by
  have hindex : body.children[body.children.findIdx (fun c => isStatement c && !isDirective c)]? = some s := by
    rw [← hs, ← List.find?_not_eq_head?_dropWhile, statements_eq, List.find?_filter, ← List.find?_eq_getElem?_findIdx]
    simp
  have hany : body.children.any (fun c => isStatement c && !isDirective c) = true := by
    obtain ⟨hlt, -⟩ := List.getElem?_eq_some_iff.1 hindex
    exact List.any_eq_true.2 (List.findIdx_lt_length.1 hlt)
  rw [insertionIndex, if_pos hany]
  exact Node.NestedIn.parts_start hin hindex

theorem not_any_first (hall : (statements body).dropWhile isDirective = []) :
    ¬ body.children.any (fun c => isStatement c && !isDirective c) = true := by
  intro hany
  obtain ⟨c, hc, hfirst⟩ := List.any_eq_true.1 hany
  rw [Bool.and_eq_true, Bool.not_eq_true'] at hfirst
  have hdirective := List.dropWhile_eq_nil_iff.1 hall c (by rw [statements_eq]; exact List.mem_filter.2 ⟨hc, hfirst.1⟩)
  rw [hfirst.2] at hdirective
  cases hdirective

/-- Behind the last directive. -/
theorem parts_directives (hin : Node.NestedIn body.start body.stop body.children) {d : Node}
    (hall : (statements body).dropWhile isDirective = []) (hd : (statements body).getLast? = some d) :
    Node.Parts d.stop (insertionIndex body) body.children := by
  rw [statements_eq, List.getLast?_eq_head?_reverse, ← List.filter_reverse, List.head?_filter,
    List.find?_eq_getElem?_findIdx] at hd
  obtain ⟨hlt, -⟩ := List.getElem?_eq_some_iff.1 hd
  have hsome : body.children.any isStatement = true := by
    obtain ⟨c, hc, hstatement⟩ := List.findIdx_lt_length.1 hlt
    exact List.any_eq_true.2 ⟨c, List.mem_reverse.1 hc, hstatement⟩
  rw [List.length_reverse] at hlt
  rw [List.getElem?_reverse hlt] at hd
  have hindex : body.children.length - body.children.reverse.findIdx isStatement =
      body.children.length - 1 - body.children.reverse.findIdx isStatement + 1 := by omega
  rw [insertionIndex, if_neg (not_any_first hall), if_pos hsome, hindex]
  exact Node.NestedIn.parts_stop hin hd

/-- Behind the opening brace. -/
theorem parts_opening (hin : Node.NestedIn body.start body.stop body.children) {brace : Node} (hnone : statements body = [])
    (hbrace : body.children.head? = some brace) : Node.Parts brace.stop (insertionIndex body) body.children := by
  have hnothing : ¬ body.children.any isStatement = true := by
    intro hany
    obtain ⟨c, hc, hstatement⟩ := List.any_eq_true.1 hany
    rw [statements_eq, List.filter_eq_nil_iff] at hnone
    exact hnone c hc hstatement
  rw [insertionIndex, if_neg (not_any_first (by rw [hnone]; rfl)), if_neg hnothing]
  exact Node.NestedIn.parts_stop hin (i := 0) (by rw [← List.head?_eq_getElem?, hbrace])

/-- **The declarations of a body go between its children at the offset at which its method takes them.** -/
theorem insertionIndex_parts {src : Bytes} (hnested : body.Nested) {o : Nat} {lead : String}
    (h : bodyStart src body = .ok (o, lead)) : Node.Parts o (insertionIndex body) body.children := by
  have hin : Node.NestedIn body.start body.stop body.children := by
    cases body
    exact hnested.2
  cases takesAt_of_bodyStart h with
  | first hs => exact parts_first hin hs
  | directives hall hd => exact parts_directives hin hall hd
  | opening hnone hbrace => exact parts_opening hin hnone hbrace

end Component

/-- The point of a plan at which a body takes its declarations. -/
def Plan.pointIn (plan : Plan) (src : Bytes) (body : Node) : Option InsertionPoint :=
  match Component.bodyStart src body with
  | .ok (o, _) => plan.point? o
  | .error _ => none

namespace Alias

variable (src : Bytes) (stem : String) (plan : Plan)

def newNames (body : Node) : List String := ((plan.pointIn src body).map (·.names)).getD []

/-- The declarations that a body gets, behind the lead of its point. -/
def newNodes (body : Node) : List Node :=
  ((plan.pointIn src body).map (fun p => declarationNodes stem p.separator
    ((plan.edits stem).stopOf p.offset.toNat + (Bytes.ofString p.lead).length) p.names)).getD []

/-- The label where the text has gone: what begins at an insertion begins behind it, what ends there ends in front. -/
def shifted (es : Edits) (l : Label) : Label :=
  { l with start := es.startOf l.start, stop := max (es.startOf l.start) (es.stopOf l.stop) }

mutual

/-- The node with the plan carried out, and with declarations of its own if it is the body of a component method. -/
def grow (parent : Option String) (isBody : Bool) : Node → Node
  | .mk l cs =>
    let grown := growIn (Component.isOwnScope src stem parent (.mk l cs)) l.kind cs
    let i := Component.insertionIndex (.mk l cs)
    .mk (shifted (plan.edits stem) l)
      (if isBody then grown.take i ++ (newNodes src stem plan (.mk l cs) ++ grown.drop i) else grown)

def growIn (seeksBody : Bool) (parent : String) : List Node → List Node
  | [] => []
  | c :: cs =>
    let isBody := seeksBody && c.field == "body"
    grow (some parent) isBody c :: growIn (seeksBody && !isBody) parent cs

end

/-- The change that carrying out a plan makes. -/
def growth : Change :=
  ⟨src, Edits.weave src 0 (plan.edits stem), stem, newNames src plan, fun _ => false⟩

variable {src : Bytes} {stem : String} {plan : Plan}

theorem point_of_pointIn {body : Node} {p : InsertionPoint} (h : plan.pointIn src body = some p) :
    p ∈ plan.points ∧ ∃ o lead, Component.bodyStart src body = .ok (o, lead) ∧ p.offset = o := by
  unfold Plan.pointIn at h
  split at h
  · next o lead ho => exact ⟨List.mem_of_find?_eq_some h, o, lead, ho, Plan.offset_of_point? h⟩
  · cases h

theorem isDeclaration_newNodes (hwithin : Edits.Within 0 src (plan.edits stem)) (body : Node) :
    List.Forall₂ (fun x d => IsDeclaration (Edits.weave src 0 (plan.edits stem)) stem x d) (newNames src plan body)
      (newNodes src stem plan body) := by
  unfold newNames newNodes
  cases hp : plan.pointIn src body with
  | none => exact .nil
  | some p =>
    simp only [Option.map_some, Option.getD_some]
    by_cases hn : p.names = []
    · rw [hn]
      exact .nil
    · have hmem : (p.offset.toNat, Bytes.ofString (render stem p)) ∈ plan.edits stem :=
        Plan.mem_edits.2 ⟨p, (point_of_pointIn hp).1, hn, rfl⟩
      obtain ⟨stop, hslice⟩ := slice_declarationsText hwithin hmem
      exact isDeclaration_declarationNodes p.names _ stop hslice

/-! ## Putting declarations among children -/

variable {g : Change}

theorem Grafts.declareAll {seeksBody : Bool} {parent : String} {cs cs' : List Node} (h : Grafts g seeksBody [] parent cs cs') :
    ∀ {names : List String} {ds : List Node}, List.Forall₂ (fun x d => IsDeclaration g.after g.stem x d) names ds →
      Grafts g seeksBody names parent cs (ds ++ cs')
  | _, _, .nil => h
  | _, _, .cons hd hds => .declare hd (h.declareAll hds)

/-- **Declarations may stand anywhere among the children.** -/
theorem Grafts.put {names : List String} {ds : List Node} (hds : List.Forall₂ (fun x d => IsDeclaration g.after g.stem x d) names ds) :
    ∀ {cs' : List Node} {seeksBody : Bool} {parent : String} {cs : List Node} (i : Nat), Grafts g seeksBody [] parent cs cs' →
      Grafts g seeksBody names parent cs (cs'.take i ++ (ds ++ cs'.drop i))
  | cs', _, _, _, 0, h => by
    rw [List.take_zero, List.drop_zero, List.nil_append]
    exact h.declareAll hds
  | [], _, _, _, i + 1, h => by
    rw [List.take_nil, List.drop_nil, List.nil_append]
    exact h.declareAll hds
  | c' :: cs', _, _, _, i + 1, .keep first rest => .keep first (Grafts.put hds i rest)
  | c' :: cs', _, _, _, i + 1, .semicolon token rest => .semicolon token (Grafts.put hds i rest)

/-! ## The tree as a graft -/

/-- The node lies within the text, and if it is a leaf nothing is put in inside. -/
structure Fits (src : Bytes) (es : Edits) (n : Node) : Prop where
  inside : n.stop ≤ src.length
  whole : n.children = [] → ∀ e ∈ es, n.Misses e.1

theorem text_shifted {es : Edits} (hwithin : Edits.Within 0 src es) {l : Label} (h : Fits src es (.mk l [])) (cs : List Node) :
    (Node.mk (shifted es l) cs).text (Edits.weave src 0 es) = (Node.mk l []).text src :=
  congrArg Bytes.toString? (Edits.slice_weave hwithin h.inside (h.whole rfl))

theorem position_shifted {es : Edits} (hwithin : Edits.Within 0 src es) (hsrc : Utf8.Encodes src)
    (hafter : Utf8.Encodes (Edits.weave src 0 es)) (l : Label) (h : ∃ p, Position.ofOffset src l.start = .ok p) :
    ∃ p, Position.ofOffset (Edits.weave src 0 es) (shifted es l).start = .ok p := by
  rw [ofOffset_ok_iff hsrc] at h
  rw [ofOffset_ok_iff hafter]
  exact Edits.encodes_take_weave hwithin hsrc hafter h

/-- A body for which there are names is a block. -/
def TakesInBlock (src : Bytes) (plan : Plan) (body : Node) : Prop := newNames src plan body ≠ [] → body.kind = "statement_block"

/-- If the place is that of a component method its body takes names in a block. -/
def BodyFits (src : Bytes) (stem : String) (plan : Plan) (p : Place) : Prop :=
  Component.isOwnScope src stem p.parent p.node = true → ∀ body, p.node.child? "body" = some body → TakesInBlock src plan body

mutual

/-- **A tree with a plan carried out is the tree with declarations put in.** -/
theorem graft_grow (hwithin : Edits.Within 0 src (plan.edits stem)) (hsrc : Utf8.Encodes src)
    (hafter : Utf8.Encodes (Edits.weave src 0 (plan.edits stem))) : ∀ (parent : Option String) (path : List Nat) (isBody : Bool)
    (n : Node), (∀ m ∈ n.preorder, Fits src (plan.edits stem) m) → (∀ p ∈ n.places parent path, BodyFits src stem plan p) →
    (isBody = true → TakesInBlock src plan n) →
    Graft (growth src stem plan) (if isBody then newNames src plan n else []) parent n (grow src stem plan parent isBody n)
  | parent, path, isBody, .mk l cs, hfits, hbodies, hblock => by
    have hhere := hfits _ (Node.self_mem_preorder _)
    have hbody : BodyFits src stem plan ⟨parent, path, .mk l cs⟩ :=
      hbodies _ (by rw [Node.places]; exact List.mem_cons_self)
    have hbelow := grafts_growIn hwithin hsrc hafter l.kind path 0 (Component.isOwnScope src stem parent (.mk l cs)) cs
      (fun m hm => hfits m (by rw [Node.preorder]; exact List.mem_cons_of_mem _ hm))
      (fun p hp => hbodies p (by rw [Node.places]; exact List.mem_cons_of_mem _ hp)) hbody
    rw [grow]
    refine .mk ⟨rfl, rfl, rfl, rfl⟩ ?_ ?_ (position_shifted hwithin hsrc hafter l) ?_
    · intro hn
      cases isBody with
      | false => exact absurd rfl hn
      | true => exact hblock rfl hn
    · rintro rfl -
      exact text_shifted hwithin hhere _
    · cases isBody with
      | false => exact hbelow
      | true => exact Grafts.put (g := growth src stem plan) (isDeclaration_newNodes hwithin (.mk l cs)) _ hbelow

theorem grafts_growIn (hwithin : Edits.Within 0 src (plan.edits stem)) (hsrc : Utf8.Encodes src)
    (hafter : Utf8.Encodes (Edits.weave src 0 (plan.edits stem))) : ∀ (parent : String) (path : List Nat) (i : Nat)
    (seeksBody : Bool) (cs : List Node), (∀ m ∈ Node.preorderAll cs, Fits src (plan.edits stem) m) →
    (∀ p ∈ Node.placesAll parent path i cs, BodyFits src stem plan p) →
    (seeksBody = true → ∀ body, cs.find? (·.field == "body") = some body → TakesInBlock src plan body) →
    Grafts (growth src stem plan) seeksBody [] parent cs (growIn src stem plan seeksBody parent cs)
  | _, _, _, _, [], _, _, _ => by
    rw [growIn]
    exact .nil
  | parent, path, i, seeksBody, c :: cs, hfits, hbodies, hblock => by
    have hfirst : (seeksBody && c.field == "body") = true → TakesInBlock src plan c := by
      intro h
      rw [Bool.and_eq_true] at h
      exact hblock h.1 c (by rw [List.find?_cons, h.2])
    have hlater : (seeksBody && !(seeksBody && c.field == "body")) = true → ∀ body, cs.find? (·.field == "body") = some body →
        TakesInBlock src plan body := by
      intro h body hb
      cases hs : seeksBody with
      | false => rw [hs] at h; cases h
      | true =>
        rw [hs, Bool.true_and, Bool.true_and, Bool.not_eq_true'] at h
        exact hblock hs body (by rw [List.find?_cons, h]; exact hb)
    rw [growIn]
    refine .keep ?_ ?_
    · exact graft_grow hwithin hsrc hafter (some parent) (path ++ [i]) _ c
        (fun m hm => hfits m (by rw [Node.preorderAll]; exact List.mem_append_left _ hm))
        (fun p hp => hbodies p (by rw [Node.placesAll]; exact List.mem_append_left _ hp)) hfirst
    · exact grafts_growIn hwithin hsrc hafter parent path (i + 1) _ cs
        (fun m hm => hfits m (by rw [Node.preorderAll]; exact List.mem_append_right _ hm))
        (fun p hp => hbodies p (by rw [Node.placesAll]; exact List.mem_append_right _ hp)) hlater

end

end Alias
end TagAlias
