import TagAlias.Alias.Splice
import TagAlias.Proofs.Component.Walk
import TagAlias.Proofs.Text.Edits
import TagAlias.Syntax.Fault
/-!
# The declaration of an alias as a node

`declarationNode` is the tree of the declaration of an alias.  Where the text of a declaration stands, its node declares the
name as a constant in the scope around (`declarations_declarationNode`); it opens no scope, is no component method and has
no tags and no faults.
-/
namespace TagAlias

theorem Bytes.slice_of_slice_eq {src a b c : Bytes} {i j : Nat} (h : src.slice i j = a ++ (b ++ c)) :
    src.slice (i + a.length) (i + a.length + b.length) = b := by
  by_cases hb : b = []
  · subst hb; exact Bytes.slice_eq_nil _ (Nat.le_refl _)
  have hlen : (a ++ (b ++ c)).length ≤ j - i := by
    rw [← h, Bytes.slice, List.length_take]; omega
  have hpos : 0 < b.length := List.length_pos_iff.2 hb
  simp only [List.length_append] at hlen
  have hslice := src.slice_slice (i := i) (j := j) (a := i + a.length) (b := i + a.length + b.length) (by omega) (by omega)
  rw [← hslice, h, Nat.add_sub_cancel_left, show i + a.length + b.length - i = a.length + b.length by omega,
    Bytes.slice_append_right (Nat.le_refl _), Nat.sub_self, Nat.add_sub_cancel_left, Bytes.slice_append_left (Nat.le_refl _)]
  exact List.take_length

namespace Alias

/-- The node of the declaration of an alias that begins at an offset. -/
def declarationNode (stem name : String) (start : Nat) : Node :=
  let n := (Bytes.ofString name).length
  let k := (Bytes.ofString (stem ++ name)).length
  .mk ⟨"lexical_declaration", start, start + 15 + n + k, "", true, false⟩
    [.mk ⟨"const", start, start + 5, "kind", false, false⟩ [],
      .mk ⟨"variable_declarator", start + 6, start + 14 + n + k, "", true, false⟩
        [.mk ⟨"identifier", start + 6, start + 6 + n, "name", true, false⟩ [],
          .mk ⟨"=", start + 7 + n, start + 8 + n, "", false, false⟩ [],
          .mk ⟨"member_expression", start + 9 + n, start + 14 + n + k, "value", true, false⟩
            [.mk ⟨"this", start + 9 + n, start + 13 + n, "object", true, false⟩ [],
              .mk ⟨".", start + 13 + n, start + 14 + n, "", false, false⟩ [],
              .mk ⟨"property_identifier", start + 14 + n, start + 14 + n + k, "property", true, false⟩ []]],
      .mk ⟨";", start + 14 + n + k, start + 15 + n + k, "", false, false⟩ []]

/-- The text of the declaration of an alias stands at an offset. -/
def Declares (src : Bytes) (stem name : String) (start : Nat) : Prop :=
  ∃ stop, src.slice start stop = Bytes.ofString (declaration stem name)

/-- The node is that of the declaration of an alias, and its text stands there. -/
def IsDeclaration (src : Bytes) (stem name : String) (n : Node) : Prop :=
  ∃ start, n = declarationNode stem name start ∧ Declares src stem name start

theorem ofString_declaration (stem name : String) : Bytes.ofString (declaration stem name) =
    Bytes.ofString "const" ++ (Bytes.ofString " " ++ (Bytes.ofString name ++ Bytes.ofString (" = this." ++ stem ++ name ++ ";"))) := by
  rw [declaration]
  simp only [← ofString_append]
  simp only [String.append_assoc]
  rfl

theorem keyword_of_declares {src : Bytes} {stem name : String} {start : Nat} (h : Declares src stem name start) :
    (src.slice start (start + 5)).toString? = .ok "const" := by
  obtain ⟨stop, h⟩ := h
  rw [ofString_declaration, ← List.nil_append (Bytes.ofString "const" ++ _)] at h
  have := Bytes.slice_of_slice_eq h
  rw [show src.slice start (start + 5) = Bytes.ofString "const" from this, toString?_ofString]

theorem name_of_declares {src : Bytes} {stem name : String} {start : Nat} (h : Declares src stem name start) :
    (src.slice (start + 6) (start + 6 + (Bytes.ofString name).length)).toString? = .ok name := by
  obtain ⟨stop, h⟩ := h
  rw [ofString_declaration, ← List.append_assoc] at h
  have := Bytes.slice_of_slice_eq h
  rw [show src.slice (start + 6) (start + 6 + (Bytes.ofString name).length) = Bytes.ofString name from this,
    toString?_ofString]

/-- **The declaration of an alias declares a constant in the scope around.** -/
theorem declarations_declarationNode {src : Bytes} {stem name : String} {start : Nat} (h : Declares src stem name start)
    (isBody : Bool) : Scope.declarations src isBody (declarationNode stem name start) = .ok [⟨.around, name, "const"⟩] := by
  have hkeyword : ∀ l : Label, l.start = start → l.stop = start + 5 → (Node.mk l []).text src = .ok "const" := by
    intro l h₁ h₂
    rw [Node.text, Node.start, Node.stop, Node.label, h₁, h₂, keyword_of_declares h]
  have hname : ∀ l : Label, l.start = start + 6 → l.stop = start + 6 + (Bytes.ofString name).length →
      (Node.mk l []).text src = .ok name := by
    intro l h₁ h₂
    rw [Node.text, Node.start, Node.stop, Node.label, h₁, h₂, name_of_declares h]
  simp [Scope.declarations, declarationNode, Node.kind, Node.label, Scope.functionKinds, Scope.classDeclarationKinds,
    Scope.blockKinds, Node.child?, Node.children, Node.field, Node.namedChildren, Node.named, Node.bindingLeaves,
    Node.bindingLeavesAt, Node.descent, Scope.declareNames, hkeyword, hname, bind, Except.bind, pure, Except.pure, Except.map]

/-- The kinds of the nodes in the declaration of an alias, which declare nothing by themselves. -/
def partKinds : List String :=
  ["const", "variable_declarator", "identifier", "=", "member_expression", "this", ".", "property_identifier", ";"]

theorem declarations_part {src : Bytes} {n : Node} (h : n.kind ∈ partKinds) (isBody : Bool) :
    Scope.declarations src isBody n = .ok [] ∧ Scope.opens isBody n = none := by
  simp only [partKinds, List.mem_cons, List.not_mem_nil, or_false] at h
  rcases h with h | h | h | h | h | h | h | h | h <;>
    simp [Scope.declarations, Scope.opens, h, Scope.functionKinds, Scope.classDeclarationKinds, Scope.blockKinds]

/-- The nodes are parts of the declaration of an alias, and so is all below them. -/
def AllParts (cs : List Node) : Prop := ∀ n ∈ Node.preorderAll cs, n.kind ∈ partKinds

theorem AllParts.head {c : Node} {ds : List Node} (h : AllParts (c :: ds)) : c.kind ∈ partKinds :=
  h c (by rw [Node.preorderAll]; exact List.mem_append_left _ (Node.self_mem_preorder c))

theorem AllParts.below {l : Label} {cs ds : List Node} (h : AllParts (.mk l cs :: ds)) : AllParts cs := fun n hn =>
  h n (by rw [Node.preorderAll, Node.preorder]; exact List.mem_append_left _ (List.mem_cons_of_mem _ hn))

theorem AllParts.single {c : Node} {ds : List Node} (h : AllParts (c :: ds)) : AllParts [c] := fun n hn =>
  h n (by
    rw [Node.preorderAll, List.mem_append] at hn ⊢
    exact hn.imp_right (fun hn => by rw [Node.preorderAll] at hn; cases hn))

theorem AllParts.tail {c : Node} {ds : List Node} (h : AllParts (c :: ds)) : AllParts ds := fun n hn =>
  h n (by rw [Node.preorderAll]; exact List.mem_append_right _ hn)

theorem methodName?_part {src : Bytes} {stem : String} {parent : Option String} {n : Node} (h : n.kind ∈ partKinds) :
    Component.methodName? src stem parent n = .ok none := by
  have hkind : Component.methodKinds.contains n.kind = false :=
    (by decide : ∀ k ∈ partKinds, Component.methodKinds.contains k = false) n.kind h
  rw [Component.methodName?, hkind]; rfl

theorem tagReferences_part {src : Bytes} {binds : List Nat → String → Bool} {path : List Nat} {n : Node}
    (h : n.kind ∈ partKinds) : Component.tagReferences src binds path n = [] := by
  have hkind : Component.tagKinds.contains n.kind = false :=
    (by decide : ∀ k ∈ partKinds, Component.tagKinds.contains k = false) n.kind h
  rw [Component.tagReferences, Component.tagRoot?, hkind]; rfl

mutual

theorem analyze_part (src : Bytes) : ∀ (isBody : Bool) (n : Node), AllParts [n] → (Scope.analyze src isBody n).1 = []
  | isBody, .mk l cs, h => by
    obtain ⟨hd, ho⟩ := @declarations_part src (.mk l cs) h.head isBody
    rw [Scope.analyze, ho]
    simp only [Scope.readable, hd, Except.toOption, Option.getD_some, List.filter_nil, List.nil_append]
    exact analyzeAll_part src _ cs h.below

theorem analyzeAll_part (src : Bytes) : ∀ (seeksBody : Bool) (cs : List Node), AllParts cs →
    (Scope.analyzeAll src seeksBody cs).1 = []
  | _, [], _ => by rw [Scope.analyzeAll]
  | seeksBody, c :: cs, h => by
    rw [Scope.analyzeAll]
    simp only [analyzeAll_part src _ cs h.tail, List.append_nil]
    exact analyze_part src _ c h.single

end

mutual

theorem fault?_part (src : Bytes) : ∀ (isBody : Bool) (n : Node), AllParts [n] → Scope.fault? src isBody n = none
  | isBody, .mk l cs, h => by
    rw [Scope.fault?, (@declarations_part src (.mk l cs) h.head isBody).1]
    exact faultIn?_part src _ cs h.below

theorem faultIn?_part (src : Bytes) : ∀ (seeksBody : Bool) (cs : List Node), AllParts cs →
    Scope.faultIn? src seeksBody cs = none
  | _, [], _ => by rw [Scope.faultIn?]
  | seeksBody, c :: cs, h => by
    rw [Scope.faultIn?, fault?_part src _ c h.single]
    exact faultIn?_part src _ cs h.tail

end

mutual

theorem referencesUnder_part (src : Bytes) (stem : String) : ∀ (outer : List Scope) (isBody : Bool) (n : Node), AllParts [n] →
    Component.referencesUnder src stem outer isBody n = []
  | outer, isBody, .mk l cs, h => by
    rw [Component.referencesUnder, tagReferences_part h.head, referencesUnderAll_part src stem _ _ _ cs h.below]; rfl

theorem referencesUnderAll_part (src : Bytes) (stem : String) : ∀ (outer : List Scope) (parent : String) (seeksBody : Bool)
    (cs : List Node), AllParts cs → Component.referencesUnderAll src stem outer parent seeksBody cs = []
  | _, _, _, [], _ => by rw [Component.referencesUnderAll]
  | outer, parent, seeksBody, .mk l ds :: cs, h => by
    rw [Component.referencesUnderAll, methodName?_part h.head]
    simp only [referencesUnder_part src stem outer _ (.mk l ds) h.single,
      referencesUnderAll_part src stem outer parent _ cs h.tail, List.append_nil]

end

mutual

theorem methodsUnder_part (supply : Node → List String) (src : Bytes) (stem : String) : ∀ (outer : List Scope)
    (known : List String) (isBody : Bool) (parent : Option String) (n : Node), AllParts [n] →
    Component.methodsUnder supply src stem outer known isBody parent n = []
  | outer, known, isBody, parent, .mk l cs, h => by
    rw [Component.methodsUnder, Component.methodHere, methodName?_part h.head]
    exact methodsUnderAll_part supply src stem _ _ _ _ cs h.below

theorem methodsUnderAll_part (supply : Node → List String) (src : Bytes) (stem : String) : ∀ (outer : List Scope)
    (known : List String) (seeksBody : Bool) (parent : String) (cs : List Node), AllParts cs →
    Component.methodsUnderAll supply src stem outer known seeksBody parent cs = []
  | _, _, _, _, [], _ => by rw [Component.methodsUnderAll]
  | outer, known, seeksBody, parent, c :: cs, h => by
    rw [Component.methodsUnderAll]
    simp only [methodsUnder_part supply src stem outer known _ (some parent) c h.single,
      methodsUnderAll_part supply src stem outer known _ parent cs h.tail, List.append_nil]

end

/-! ## The whole declaration -/

theorem allParts_declarationNode (stem name : String) (start : Nat) : AllParts (declarationNode stem name start).children := by
  intro n hn
  simp only [declarationNode, Node.children, Node.preorderAll, Node.preorder, List.append_nil, List.cons_append,
    List.nil_append, List.mem_cons, List.not_mem_nil, or_false] at hn
  rcases hn with rfl | rfl | rfl | rfl | rfl | rfl | rfl | rfl | rfl <;> simp [Node.kind, Node.label, partKinds]

section

variable {src : Bytes} {stem name : String} {d : Node} (h : IsDeclaration src stem name d)

include h

theorem IsDeclaration.kind : d.kind = "lexical_declaration" := by
  obtain ⟨start, rfl, -⟩ := h; rfl

theorem IsDeclaration.field : d.field = "" := by
  obtain ⟨start, rfl, -⟩ := h; rfl

theorem IsDeclaration.named : d.named = true := by
  obtain ⟨start, rfl, -⟩ := h; rfl

theorem IsDeclaration.allParts : AllParts d.children := by
  obtain ⟨start, rfl, -⟩ := h; exact allParts_declarationNode stem name start

/-- **A declaration leaves one constant to the scope around.** -/
theorem IsDeclaration.analyze (isBody : Bool) : (Scope.analyze src isBody d).1 = [⟨.around, name, "const"⟩] := by
  obtain ⟨start, rfl, hd⟩ := h
  have hopens : Scope.opens isBody (declarationNode stem name start) = none := rfl
  have hbelow := analyzeAll_part src (Scope.functionKinds.contains "lexical_declaration") _
    (allParts_declarationNode stem name start)
  have hhere : Scope.readable src isBody (declarationNode stem name start) = [⟨.around, name, "const"⟩] := by
    rw [Scope.readable, declarations_declarationNode hd]; rfl
  unfold declarationNode at hopens hbelow hhere ⊢
  rw [Scope.analyze, hopens]
  simp only [hhere]
  exact congrArg (_ ++ ·) hbelow

theorem IsDeclaration.fault? (isBody : Bool) : Scope.fault? src isBody d = none := by
  obtain ⟨start, rfl, hd⟩ := h
  have hbelow := faultIn?_part src (Scope.functionKinds.contains "lexical_declaration") _
    (allParts_declarationNode stem name start)
  have hhere := declarations_declarationNode hd isBody
  unfold declarationNode at hbelow hhere ⊢
  rw [Scope.fault?, hhere]
  exact hbelow

theorem IsDeclaration.methodName? (stem' : String) (parent : Option String) :
    Component.methodName? src stem' parent d = .ok none := by
  rw [Component.methodName?, h.kind]; rfl

theorem IsDeclaration.referencesUnder (stem' : String) (outer : List Scope) (isBody : Bool) :
    Component.referencesUnder src stem' outer isBody d = [] := by
  have hkind := h.kind
  have hparts := h.allParts
  cases d with
  | mk l cs =>
    have htag : Component.tagKinds.contains (Node.mk l cs).kind = false := by rw [hkind]; decide
    rw [Component.referencesUnder, Component.tagReferences, Component.tagRoot?, htag]
    exact referencesUnderAll_part src stem' _ _ _ cs hparts

theorem IsDeclaration.methodsUnder (supply : Node → List String) (stem' : String) (outer : List Scope)
    (known : List String) (isBody : Bool) (parent : Option String) :
    Component.methodsUnder supply src stem' outer known isBody parent d = [] := by
  have hname := h.methodName? stem' parent
  have hparts := h.allParts
  cases d with
  | mk l cs =>
    rw [Component.methodsUnder, Component.methodHere, hname]
    exact methodsUnderAll_part supply src stem' _ _ _ _ cs hparts

theorem IsDeclaration.hasFault : d.hasFault = false := by
  obtain ⟨start, rfl, -⟩ := h
  simp [declarationNode, Node.hasFault, Node.hasFaultIn, Node.isFault, Node.kind, Node.missing, Node.label]

end

end Alias
end TagAlias
