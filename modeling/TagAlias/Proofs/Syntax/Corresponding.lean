import Mathlib.Data.List.Forall2
import TagAlias.Proofs.Scope.Table
import TagAlias.Component.Tag
/-!
# Looking into nodes that correspond

Two trees may be compared by a relation of their nodes that is kept when a child is looked up by its field and when the
named children are listed, and that says something of the nodes whose texts are read (`Corresponds`).  Whatever the analysis
finds in a node by such steps then corresponds: the names that a pattern binds (`Corresponds.bindingLeaves`) and an import
brings in (`Corresponds.importedNames`), the root of a tag's name (`Corresponds.tagRoot`), and the leaves by which a node
declares (`Corresponds.makings`).
-/
namespace TagAlias

/-! ## Options as lists of one -/

theorem Forall₂.cases_toList {α β : Type} {R : α → β → Prop} {a : Option α} {b : Option β}
    (h : List.Forall₂ R a.toList b.toList) : (a = none ∧ b = none) ∨ ∃ x y, a = some x ∧ b = some y ∧ R x y := by
  cases a with
  | none =>
    cases b with
    | none => exact .inl ⟨rfl, rfl⟩
    | some y => cases h
  | some x =>
    cases b with
    | none => cases h
    | some y =>
      cases h with
      | cons hxy _ => exact .inr ⟨x, y, rfl, rfl, hxy⟩

theorem Forall₂.toList_or {α β : Type} {R : α → β → Prop} {a a₁ : Option α} {b b₁ : Option β}
    (h : List.Forall₂ R a.toList b.toList) (h₁ : List.Forall₂ R a₁.toList b₁.toList) :
    List.Forall₂ R (a.or a₁).toList (b.or b₁).toList := by
  rcases Forall₂.cases_toList h with ⟨rfl, rfl⟩ | ⟨x, y, rfl, rfl, hxy⟩
  · exact h₁
  · exact h

namespace Node

/-! ## Walks as steps to children -/

mutual

theorem induct {P : Node → Prop} (h : ∀ l cs, (∀ c ∈ cs, P c) → P (mk l cs)) : ∀ n : Node, P n
  | mk l cs => h l cs (inductAll h cs)

theorem inductAll {P : Node → Prop} (h : ∀ l cs, (∀ c ∈ cs, P c) → P (mk l cs)) : ∀ cs : List Node, ∀ c ∈ cs, P c
  | [] => fun c hc => by cases hc
  | n :: r => List.forall_mem_cons.2 ⟨induct h n, inductAll h r⟩

end

theorem bindingLeavesAt_eq (f : String) : ∀ cs : List Node,
    bindingLeavesAt f cs = (cs.find? (·.field == f)).toList.flatMap bindingLeaves
  | [] => by rw [bindingLeavesAt]; rfl
  | n :: r => by
    rw [bindingLeavesAt, List.find?_cons]
    cases n.field == f with
    | true => simp
    | false => simpa using bindingLeavesAt_eq f r

theorem bindingLeavesOfAll_eq : ∀ cs : List Node, bindingLeavesOfAll cs = (cs.filter (·.named)).flatMap bindingLeaves
  | [] => by rw [bindingLeavesOfAll]; rfl
  | n :: r => by
    rw [bindingLeavesOfAll, List.filter_cons, bindingLeavesOfAll_eq r]
    cases n.named with
    | true => simp
    | false => simp

theorem leftmostObject?_eq : ∀ cs : List Node, leftmostObject? cs = (cs.find? (·.field == "object")).bind leftmost?
  | [] => by rw [leftmostObject?]; rfl
  | n :: r => by
    rw [leftmostObject?, List.find?_cons]
    cases n.field == "object" with
    | true => simp
    | false => simpa using leftmostObject?_eq r

theorem leftmostNamed?_eq : ∀ cs : List Node, leftmostNamed? cs = (cs.filter (·.named)).head?.bind leftmost?
  | [] => by rw [leftmostNamed?]; rfl
  | n :: r => by
    rw [leftmostNamed?, List.filter_cons]
    cases n.named with
    | true => simp
    | false => simpa using leftmostNamed?_eq r

/-- A pattern looks into fields that have a name. -/
theorem ne_empty_of_descent {kind f : String} (h : descent kind = .field f) : f ≠ "" := by
  unfold descent at h
  repeat' split at h
  all_goals cases h
  all_goals decide

end Node

/-- The kinds of nodes whose children need not correspond one by one: bodies, which may get more of them, and class bodies,
which may hold another method. -/
def looseKinds : List String := ["statement_block", "class_body"]

/-- The kinds of nodes that declare the text of their name, whatever node that is. -/
def namingKinds : List String :=
  Scope.declaredFunctionKinds ++ Scope.namedFunctionKinds ++ Scope.classDeclarationKinds ++ ["class", "enum_declaration"]

/-- A relation `R` of nodes that is kept by looking into them, with one that it entails for nodes whose texts are read. -/
structure Corresponds (R T : Node → Node → Prop) : Prop where
  kind : ∀ {o n}, R o n → n.kind = o.kind
  child : ∀ {o n}, R o n → o.kind ≠ "class_body" → ∀ {f : String}, f ≠ "" →
    List.Forall₂ R (o.child? f).toList (n.child? f).toList
  namedChildren : ∀ {o n}, R o n → o.kind ∉ looseKinds → List.Forall₂ R o.namedChildren n.namedChildren
  leaf : ∀ {o n}, R o n → Node.descent o.kind = .leaf → T o n
  name : ∀ {o n}, R o n → namingKinds.contains o.kind = true → List.Forall₂ T (Lexical.nameOf o) (Lexical.nameOf n)

namespace Corresponds

variable {R T : Node → Node → Prop} (h : Corresponds R T)

include h

/-! ## Patterns -/

/-- **A pattern binds names that correspond.** -/
theorem bindingLeaves {o n : Node} (hon : R o n) : List.Forall₂ T o.bindingLeaves n.bindingLeaves := by
  revert n
  refine Node.induct (P := fun o => ∀ {n}, R o n → List.Forall₂ T o.bindingLeaves n.bindingLeaves) ?_ o
  rintro l cs ih ⟨l', cs'⟩ hon
  have hkind : l'.kind = l.kind := h.kind hon
  have hbelow : ∀ {os ns : List Node}, List.Forall₂ R os ns → (∀ c ∈ os, c ∈ cs) →
      List.Forall₂ T (os.flatMap Node.bindingLeaves) (ns.flatMap Node.bindingLeaves) := by
    intro os ns hall
    induction hall with
    | nil => intro _; exact .nil
    | cons hxy _ ihrest =>
      intro hin
      rw [List.flatMap_cons, List.flatMap_cons]
      exact List.rel_append (ih _ (hin _ List.mem_cons_self) hxy) (ihrest (fun c hc => hin c (List.mem_cons_of_mem _ hc)))
  rw [Node.bindingLeaves, Node.bindingLeaves, hkind]
  cases hd : Node.descent l.kind with
  | leaf => exact .cons (h.leaf hon hd) .nil
  | field f =>
    have hclass : l.kind ≠ "class_body" := fun e => by
      rw [e, show Node.descent "class_body" = .nowhere from by decide] at hd
      cases hd
    simp only [Node.bindingLeavesAt_eq]
    exact hbelow (h.child hon hclass (Node.ne_empty_of_descent hd)) (fun c hc => List.mem_of_find?_eq_some (Option.mem_toList.1 hc))
  | everyChild =>
    have hloose : l.kind ∉ looseKinds := fun hin => by
      simp only [looseKinds, List.mem_cons, List.not_mem_nil, or_false] at hin
      rcases hin with e | e <;> rw [e] at hd <;> exact absurd hd (by decide)
    simp only [Node.bindingLeavesOfAll_eq]
    exact hbelow (h.namedChildren hon hloose) (fun c hc => (List.mem_filter.1 hc).1)
  | nowhere => exact .nil

theorem patternAt {o n : Node} (hon : R o n) (hclass : o.kind ≠ "class_body") {f : String} (hf : f ≠ "") :
    List.Forall₂ T (Lexical.patternAt o f) (Lexical.patternAt n f) :=
  List.rel_flatMap (h.child hon hclass hf) (fun _ _ hc => h.bindingLeaves hc)

theorem patterns {o n : Node} (hon : R o n) (hloose : o.kind ∉ looseKinds) :
    List.Forall₂ T (Lexical.patterns o) (Lexical.patterns n) :=
  List.rel_flatMap (h.namedChildren hon hloose) (fun _ _ hc => h.bindingLeaves hc)

/-! ## Imports -/

theorem identifier {o n : Node} (hon : R o n) (hkind : o.kind = "identifier") : T o n :=
  h.leaf hon (by rw [hkind]; decide)

theorem filter_kind {os ns : List Node} (hall : List.Forall₂ R os ns) (k : String) :
    List.Forall₂ R (os.filter (·.kind == k)) (ns.filter (·.kind == k)) :=
  List.rel_filter (fun o n (hon : R o n) => by simp only [h.kind hon]) hall

theorem filter_identifier {os ns : List Node} (hall : List.Forall₂ R os ns) :
    List.Forall₂ T (os.filter (·.kind == "identifier")) (ns.filter (·.kind == "identifier")) := by
  have hkinds : ∀ o ∈ os.filter (·.kind == "identifier"), o.kind = "identifier" := fun o ho =>
    beq_iff_eq.1 (List.mem_filter.1 ho).2
  exact ((List.forall₂_and_left _ _).2 ⟨hkinds, h.filter_kind hall "identifier"⟩).imp
    (fun _ _ hon => h.identifier hon.2 hon.1)

theorem find?_identifier {os ns : List Node} (hall : List.Forall₂ R os ns) :
    List.Forall₂ T (os.find? (·.kind == "identifier")).toList (ns.find? (·.kind == "identifier")).toList := by
  induction hall with
  | nil => exact .nil
  | @cons o n os ns hon _ ih =>
    rw [List.find?_cons, List.find?_cons, h.kind hon]
    split
    · next hk => exact .cons (h.identifier hon (beq_iff_eq.1 hk)) .nil
    · exact ih

theorem specifierName {o n : Node} (hon : R o n) (hclass : o.kind ≠ "class_body") :
    List.Forall₂ T
      (match (o.child? "alias").or (o.child? "name") with
        | some l => if l.kind == "identifier" then some l else none
        | none => none).toList
      (match (n.child? "alias").or (n.child? "name") with
        | some l => if l.kind == "identifier" then some l else none
        | none => none).toList := by
  rcases Forall₂.cases_toList (Forall₂.toList_or (h.child hon hclass (f := "alias") (by decide))
    (h.child hon hclass (f := "name") (by decide))) with ⟨ho, hn⟩ | ⟨x, y, ho, hn, hxy⟩
  · rw [ho, hn]; exact .nil
  · simp only [ho, hn, h.kind hxy]
    split
    · next hk => exact .cons (h.identifier hxy (beq_iff_eq.1 hk)) .nil
    · exact .nil

theorem filterMap_specifierName {os ns : List Node} (hall : List.Forall₂ R os ns) (hclass : ∀ o ∈ os, o.kind ≠ "class_body") :
    List.Forall₂ T
      (os.filterMap (fun s => match (s.child? "alias").or (s.child? "name") with
        | some l => if l.kind == "identifier" then some l else none
        | none => none))
      (ns.filterMap (fun s => match (s.child? "alias").or (s.child? "name") with
        | some l => if l.kind == "identifier" then some l else none
        | none => none)) := by
  induction hall with
  | nil => exact .nil
  | cons hon _ ih =>
    have hrest := ih (fun o ho => hclass o (List.mem_cons_of_mem _ ho))
    rw [List.filterMap_cons, List.filterMap_cons]
    rcases Forall₂.cases_toList (h.specifierName hon (hclass _ List.mem_cons_self)) with ⟨ho, hn⟩ | ⟨x, y, ho, hn, hxy⟩
    · simp only [ho, hn]; exact hrest
    · simp only [ho, hn]; exact .cons hxy hrest

theorem fromPart {o n : Node} (hon : R o n) :
    List.Forall₂ T (Scope.importedNames.fromPart o) (Scope.importedNames.fromPart n) := by
  unfold Scope.importedNames.fromPart
  simp only [h.kind hon]
  by_cases h₁ : o.kind = "identifier"
  · simp only [h₁, beq_self_eq_true, if_true]; exact .cons (h.identifier hon h₁) .nil
  by_cases h₂ : o.kind = "namespace_import"
  · simp only [h₂, beq_self_eq_true, if_true, show ("namespace_import" == "identifier") = false from by decide,
      Bool.false_eq_true, if_false]
    exact h.filter_identifier (h.namedChildren hon (by rw [h₂]; decide))
  by_cases h₃ : o.kind = "named_imports"
  · simp only [h₃, beq_self_eq_true, if_true, show ("named_imports" == "identifier") = false from by decide,
      show ("named_imports" == "namespace_import") = false from by decide, Bool.false_eq_true, if_false]
    refine h.filterMap_specifierName (h.filter_kind (h.namedChildren hon (by rw [h₃]; decide)) _) ?_
    intro s hs
    rw [beq_iff_eq.1 (List.mem_filter.1 hs).2]
    decide
  · simp only [beq_false_of_ne h₁, beq_false_of_ne h₂, beq_false_of_ne h₃, Bool.false_eq_true, if_false]; exact .nil

/-- **An import brings in names that correspond.** -/
theorem importedNames {o n : Node} (hon : R o n) (hloose : o.kind ∉ looseKinds) :
    List.Forall₂ T (Scope.importedNames o) (Scope.importedNames n) := by
  refine List.rel_flatMap (h.namedChildren hon hloose) (fun c c' (hc : R c c') => ?_)
  simp only [h.kind hc]
  by_cases h₁ : c.kind = "import_require_clause"
  · simp only [h₁, beq_self_eq_true, if_true]
    exact h.filter_identifier (h.namedChildren hc (by rw [h₁]; decide))
  by_cases h₂ : c.kind = "import_clause"
  · simp only [h₂, beq_self_eq_true, if_true, show ("import_clause" == "import_require_clause") = false from by decide,
      Bool.false_eq_true, if_false]
    exact List.rel_flatMap (h.namedChildren hc (by rw [h₂]; decide)) (fun p p' hp => h.fromPart hp)
  · simp only [beq_false_of_ne h₁, beq_false_of_ne h₂, Bool.false_eq_true, if_false]; exact .nil

/-! ## Names of tags -/

theorem leftmost {o n : Node} (hon : R o n) : List.Forall₂ R o.leftmost?.toList n.leftmost?.toList := by
  revert n
  refine Node.induct (P := fun o => ∀ {n}, R o n → List.Forall₂ R o.leftmost?.toList n.leftmost?.toList) ?_ o
  rintro l cs ih ⟨l', cs'⟩ hon
  have hkind : l'.kind = l.kind := h.kind hon
  rw [Node.leftmost?, Node.leftmost?, hkind]
  by_cases hm : Node.memberKinds.contains l.kind = true
  · have hloose : l.kind ∉ looseKinds := fun hin => by
      simp only [looseKinds, List.mem_cons, List.not_mem_nil, or_false] at hin
      rcases hin with e | e <;> rw [e] at hm <;> exact absurd hm (by decide)
    have hobject := h.child hon (fun e => hloose (by rw [show l.kind = "class_body" from e]; decide)) (f := "object") (by decide)
    have hnamed := h.namedChildren hon hloose
    simp only [hm, if_true, ← List.isSome_find?, Node.leftmostObject?_eq, Node.leftmostNamed?_eq]
    rcases Forall₂.cases_toList hobject with ⟨ho, hn⟩ | ⟨x, y, ho, hn, hxy⟩
    · have hno : cs.find? (·.field == "object") = none := ho
      have hno' : cs'.find? (·.field == "object") = none := hn
      simp only [hno, hno', Option.isSome_none, Bool.false_eq_true, if_false]
      -- Without an object the first named child counts, on both sides alike.
      revert hnamed
      simp only [Node.namedChildren, Node.children]
      cases hos : cs.filter (·.named) with
      | nil =>
        intro hnamed
        cases hns : cs'.filter (·.named) with
        | nil => exact .nil
        | cons y ys => rw [hns] at hnamed; cases hnamed
      | cons x xs =>
        intro hnamed
        cases hns : cs'.filter (·.named) with
        | nil => rw [hns] at hnamed; cases hnamed
        | cons y ys =>
          rw [hns] at hnamed
          cases hnamed with
          | cons hxy _ =>
            have hin : x ∈ cs := (List.mem_filter.1 (by rw [hos]; exact List.mem_cons_self)).1
            exact ih x hin hxy
    · have hyes : cs.find? (·.field == "object") = some x := ho
      have hyes' : cs'.find? (·.field == "object") = some y := hn
      simp only [hyes, hyes', Option.isSome_some, if_true]
      exact ih x (List.mem_of_find?_eq_some hyes) hxy
  · simp only [hm, Bool.false_eq_true, if_false]
    exact .cons hon .nil

/-- **A tag has a name that corresponds, with a root that does.** -/
theorem tagRoot {o n : Node} (hon : R o n) :
    List.Forall₂ (fun a b => R a.1 b.1 ∧ T a.2 b.2) (Component.tagRoot? o).toList (Component.tagRoot? n).toList := by
  unfold Component.tagRoot?
  rw [h.kind hon]
  split
  · next htag =>
    have hclass : o.kind ≠ "class_body" := fun e => by rw [e] at htag; exact absurd htag (by decide)
    rcases Forall₂.cases_toList (h.child hon hclass (f := "name") (by decide)) with ⟨ho, hn⟩ | ⟨x, y, ho, hn, hxy⟩
    · rw [ho, hn]; exact .nil
    · rw [ho, hn]
      simp only
      rcases Forall₂.cases_toList (h.leftmost hxy) with ⟨ho, hn⟩ | ⟨u, v, ho, hn, huv⟩
      · rw [ho, hn]; exact .nil
      · simp only [ho, hn, h.kind huv]
        split
        · next hk => exact .cons ⟨hxy, h.identifier huv (beq_iff_eq.1 hk)⟩ .nil
        · exact .nil
  · exact .nil

/-! ## Declarations -/

end Corresponds

/-- The same is declared, by nodes that correspond. -/
structure SameMaking (T : Node → Node → Prop) (m m' : Lexical.Making) : Prop where
  reach : m'.reach = m.reach
  kind : m'.kind = m.kind
  leaf : T m.leaf m'.leaf

namespace Corresponds

variable {R T : Node → Node → Prop} (h : Corresponds R T)

include h

theorem row {o n : Node} (hon : R o n) {kinds : List String} {reach : Scope.Reach} {kind kind' : String}
    {leaves leaves' : List Node} (hleaves : kinds.contains o.kind = true → List.Forall₂ T leaves leaves')
    (hkind : kinds.contains o.kind = true → kind' = kind) :
    List.Forall₂ (SameMaking T) (Lexical.row o kinds reach kind leaves) (Lexical.row n kinds reach kind' leaves') := by
  unfold Lexical.row
  rw [h.kind hon]
  split
  · next hk =>
    rw [hkind hk]
    exact List.rel_map (fun o n hon => ⟨rfl, rfl, hon⟩) (hleaves hk)
  · exact .nil

theorem loopRow {o n : Node} (hon : R o n) {src src' : Bytes}
    (hkey : o.kind = "for_in_statement" → Lexical.keyword? src' n = Lexical.keyword? src o) :
    List.Forall₂ (SameMaking T) (Lexical.loopRow src o) (Lexical.loopRow src' n) := by
  unfold Lexical.loopRow
  rw [h.kind hon]
  by_cases hkind : o.kind = "for_in_statement"
  · rw [if_pos (by simp [hkind]), if_pos (by simp [hkind]), hkey hkind]
    cases Lexical.keyword? src o with
    | none => exact .nil
    | some w =>
      simp only [Option.toList_some, List.flatMap_cons, List.flatMap_nil, List.append_nil]
      exact List.rel_map (fun o n hon => ⟨rfl, rfl, hon⟩) (h.patternAt hon (by rw [hkind]; decide) (by decide))
  · rw [if_neg (by simp [hkind]), if_neg (by simp [hkind])]; exact .nil

/-- **A node declares by nodes that correspond.**  Parameters in parentheses are asked for on their own, for there a node of
any kind may stand. -/
theorem makings {o n : Node} (hon : R o n) {src src' : Bytes}
    (hparameters : Scope.functionKinds.contains o.kind = true → List.Forall₂ T
      ((o.child? "parameters").toList.flatMap Lexical.patterns) ((n.child? "parameters").toList.flatMap Lexical.patterns))
    (hkey : ["lexical_declaration", "for_in_statement"].contains o.kind = true →
      Lexical.keyword? src' n = Lexical.keyword? src o) (isBody : Bool) :
    List.Forall₂ (SameMaking T) (Lexical.makings src isBody o) (Lexical.makings src' isBody n) := by
  have hclass : ∀ {kinds : List String}, kinds.contains o.kind = true → kinds.contains "class_body" = false →
      o.kind ≠ "class_body" := fun hk hno e => by rw [e, hno] at hk; cases hk
  have hloose : ∀ {kinds : List String}, kinds.contains o.kind = true → (∀ k ∈ kinds, k ∉ looseKinds) →
      o.kind ∉ looseKinds := fun hk hno => hno _ (List.contains_iff_mem.1 hk)
  have hname : ∀ {kinds : List String}, kinds.contains o.kind = true → (∀ k ∈ kinds, namingKinds.contains k = true) →
      List.Forall₂ T (Lexical.nameOf o) (Lexical.nameOf n) := fun hk hin => h.name hon (hin _ (List.contains_iff_mem.1 hk))
  unfold Lexical.makings
  refine List.rel_append (List.rel_append (List.rel_append (List.rel_append (List.rel_append (List.rel_append
    (List.rel_append (List.rel_append (List.rel_append (List.rel_append (List.rel_append ?_ ?_) ?_) ?_) ?_) ?_) ?_) ?_) ?_) ?_) ?_) ?_
  · exact h.row hon (fun hk => hname hk (by decide)) (fun _ => rfl)
  · exact h.row hon (fun hk => hname hk (by decide)) (fun _ => rfl)
  · exact h.row hon (fun hk => List.rel_append (hparameters hk) (h.patternAt hon (hclass hk (by decide)) (by decide)))
      (fun _ => rfl)
  · exact h.row hon (fun hk => hname hk (by decide)) (fun _ => rfl)
  · exact h.row hon (fun hk => hname hk (by decide)) (fun _ => rfl)
  · cases isBody with
    | true => exact .nil
    | false =>
      exact List.rel_append (h.row hon (fun hk => h.patternAt hon (hclass hk (by decide)) (by decide)) (fun _ => rfl))
        (h.loopRow hon (fun hk => hkey (by rw [hk]; decide)))
  · exact h.row hon (fun hk => h.patterns hon (hloose hk (by decide))) (fun _ => rfl)
  · exact h.row hon (fun hk => h.patterns hon (hloose hk (by decide))) (fun hk => by
      rw [hkey (by rw [List.contains_iff_mem, List.mem_singleton] at hk; rw [hk]; decide)])
  · exact h.row hon (fun hk => h.importedNames hon (hloose hk (by decide))) (fun _ => rfl)
  · exact h.row hon (fun hk => h.find?_identifier (h.namedChildren hon (hloose hk (by decide)))) (fun _ => rfl)
  · exact h.row hon (fun hk => hname hk (by decide)) (fun _ => rfl)
  · exact h.row hon (fun hk => h.filter_identifier (h.child hon (hclass hk (by decide)) (by decide))) (fun _ => rfl)

end Corresponds
end TagAlias
