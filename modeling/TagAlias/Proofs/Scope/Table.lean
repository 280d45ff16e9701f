import TagAlias.Proofs.Data.Sequence
import TagAlias.Scope.Declarations
/-!
# The table of declarations

What a node declares, one line for each kind of declaration: which kinds of nodes make it, how far it reaches, which
nodes hold the names.  The lines stand side by side and no line looks at another, for the kinds of nodes exclude each
other.  `declarations_eq` says that the table is what `Scope.declarations` decides one kind after the other.
-/
namespace TagAlias
namespace Lexical

open Scope (Reach Declaration)

/-- A name that a node declares, by the node that holds it. -/
structure Making where
  reach : Reach
  leaf : Node
  kind : String

/-- The text of a node, empty where it cannot be read. -/
def word (src : Bytes) (n : Node) : String := ((n.text src).toOption).getD ""

def Making.declaration (src : Bytes) (m : Making) : Declaration := ⟨m.reach, word src m.leaf, m.kind⟩

/-- Nodes of the given kinds declare what stands in the leaves. -/
def row (n : Node) (kinds : List String) (reach : Reach) (kind : String) (leaves : List Node) : List Making :=
  if kinds.contains n.kind then leaves.map (⟨reach, ·, kind⟩) else []

def nameOf (n : Node) : List Node := (n.child? "name").toList

/-- The leaves of a child that is a pattern. -/
def patternAt (n : Node) (field : String) : List Node := (n.child? field).toList.flatMap Node.bindingLeaves

def patterns (n : Node) : List Node := n.namedChildren.flatMap Node.bindingLeaves

/-- The parameters of a function, in parentheses or a single one without. -/
def parameters (n : Node) : List Node :=
  (n.child? "parameters").toList.flatMap patterns ++ patternAt n "parameter"

/-- The word that a declaration or the head of a loop begins with. -/
def keyword? (src : Bytes) (n : Node) : Option String := (n.child? "kind").map (word src)

/-- A loop with a keyword declares on its own block, unless the keyword is that of variables. -/
def loopRow (src : Bytes) (n : Node) : List Making :=
  if n.kind == "for_in_statement" then
    (keyword? src n).toList.flatMap (fun w =>
      (patternAt n "left").map (⟨if w == "var" then .variable_ else .own, ·, w⟩))
  else []

/-- **What a node declares, in order.** -/
def makings (src : Bytes) (isBody : Bool) (n : Node) : List Making :=
  row n Scope.declaredFunctionKinds .around "function" (nameOf n)
  ++ row n Scope.namedFunctionKinds .own "local" (nameOf n)
  ++ row n Scope.functionKinds .own "param" (parameters n)
  ++ row n Scope.classDeclarationKinds .around "class" (nameOf n)
  ++ row n ["class"] .own "local" (nameOf n)
  ++ (if isBody then [] else row n ["catch_clause"] .own "param" (patternAt n "parameter") ++ loopRow src n)
  ++ row n ["variable_declaration"] .variable_ "var" (patterns n)
  ++ row n ["lexical_declaration"] .around ((keyword? src n).getD "let") (patterns n)
  ++ row n ["import_statement"] .around "module" (Scope.importedNames n)
  ++ row n ["import_alias"] .around "module" (n.namedChildren.find? (·.kind == "identifier")).toList
  ++ row n ["enum_declaration"] .around "enum" (nameOf n)
  ++ row n ["internal_module", "module"] .around "namespace" ((nameOf n).filter (·.kind == "identifier"))

/-- The nodes whose texts tell how a node declares. -/
def keywords (n : Node) : List Node :=
  if ["lexical_declaration", "for_in_statement"].contains n.kind then (n.child? "kind").toList else []

/-- The nodes whose texts are read for the declarations of a node. -/
def readNodes (src : Bytes) (isBody : Bool) (n : Node) : List Node :=
  keywords n ++ (makings src isBody n).map (·.leaf)

/-- The text of the node can be read. -/
def Readable (src : Bytes) (n : Node) : Prop := ∃ s, n.text src = .ok s

instance (src : Bytes) (n : Node) : Decidable (Readable src n) :=
  match h : n.text src with
  | .ok s => isTrue ⟨s, h⟩
  | .error _ => isFalse (fun ⟨s, hs⟩ => by rw [h] at hs; cases hs)

theorem text_eq_word {src : Bytes} {n : Node} (h : Readable src n) : n.text src = .ok (word src n) := by
  obtain ⟨s, hs⟩ := h
  unfold word; rw [hs]; rfl

theorem mapM_text_eq {src : Bytes} {ns : List Node} (h : ∀ n ∈ ns, Readable src n) :
    ns.mapM (·.text src) = .ok (ns.map (word src)) := by
  rw [mapM_eq_ok_iff, List.map_map]
  exact List.map_congr_left (fun n hn => text_eq_word (h n hn))

theorem declareNames_eq (src : Bytes) (reach : Reach) (kind : String) (ns : List Node) (h : ∀ n ∈ ns, Readable src n) :
    Scope.declareNames src reach kind ns = .ok ((ns.map (⟨reach, ·, kind⟩)).map (Making.declaration src)) := by
  unfold Scope.declareNames
  rw [mapM_eq_ok_iff, List.map_map, List.map_map]
  refine List.map_congr_left (fun n hn => ?_)
  rw [text_eq_word (h n hn)]
  rfl

theorem getD_map_eq_flatMap {α β : Type} (o : Option α) (f : α → List β) : (o.map f).getD [] = o.toList.flatMap f := by
  cases o <;> simp

theorem makings_function {src : Bytes} {isBody : Bool} {n : Node} (h : Scope.functionKinds.contains n.kind) :
    makings src isBody n = row n Scope.declaredFunctionKinds .around "function" (nameOf n)
      ++ row n Scope.namedFunctionKinds .own "local" (nameOf n) ++ (parameters n).map (⟨.own, ·, "param"⟩) := by
  simp only [Scope.functionKinds, List.contains_iff_mem, List.mem_cons, List.not_mem_nil, or_false] at h
  rcases h with hk | hk | hk | hk | hk | hk | hk | hk | hk <;>
    simp [makings, row, loopRow, hk, Scope.functionKinds, Scope.declaredFunctionKinds, Scope.namedFunctionKinds,
      Scope.classDeclarationKinds]

theorem makings_classDeclaration {src : Bytes} {isBody : Bool} {n : Node} (h : Scope.classDeclarationKinds.contains n.kind) :
    makings src isBody n = (nameOf n).map (⟨.around, ·, "class"⟩) := by
  simp only [Scope.classDeclarationKinds, List.contains_iff_mem, List.mem_cons, List.not_mem_nil, or_false] at h
  rcases h with hk | hk <;>
    simp [makings, row, loopRow, hk, Scope.functionKinds, Scope.declaredFunctionKinds, Scope.namedFunctionKinds,
      Scope.classDeclarationKinds]

theorem not_contains_of_subset {ks ks' : List String} (hsub : ∀ k ∈ ks, k ∈ ks') {k : String} (h : ¬ ks'.contains k) :
    ¬ ks.contains k := by
  rw [List.contains_iff_mem] at h ⊢
  exact fun hk => h (hsub k hk)

theorem makings_other {src : Bytes} {isBody : Bool} {n : Node} (h₁ : ¬ Scope.functionKinds.contains n.kind)
    (h₂ : ¬ Scope.classDeclarationKinds.contains n.kind) :
    makings src isBody n = row n ["class"] .own "local" (nameOf n)
      ++ (if isBody then [] else row n ["catch_clause"] .own "param" (patternAt n "parameter") ++ loopRow src n)
      ++ row n ["variable_declaration"] .variable_ "var" (patterns n)
      ++ row n ["lexical_declaration"] .around ((keyword? src n).getD "let") (patterns n)
      ++ row n ["import_statement"] .around "module" (Scope.importedNames n)
      ++ row n ["import_alias"] .around "module" (n.namedChildren.find? (·.kind == "identifier")).toList
      ++ row n ["enum_declaration"] .around "enum" (nameOf n)
      ++ row n ["internal_module", "module"] .around "namespace" ((nameOf n).filter (·.kind == "identifier")) := by
  have hd : ¬ Scope.declaredFunctionKinds.contains n.kind := not_contains_of_subset (by decide) h₁
  have hn : ¬ Scope.namedFunctionKinds.contains n.kind := not_contains_of_subset (by decide) h₁
  simp only [makings, row, if_neg h₁, if_neg h₂, if_neg hd, if_neg hn, List.nil_append]

theorem declarations_function {src : Bytes} {isBody : Bool} {n : Node} (hc : Scope.functionKinds.contains n.kind)
    (h : ∀ m ∈ makings src isBody n, Readable src m.leaf) :
    Scope.declarations src isBody n = .ok ((makings src isBody n).map (Making.declaration src)) := by
  rw [makings_function hc] at h ⊢
  have hparam : ∀ m ∈ parameters n, Readable src m := fun m hm =>
    h ⟨.own, m, "param"⟩ (List.mem_append_right _ (List.mem_map_of_mem hm))
  have hmany := declareNames_eq src .own "param" _ (fun m hm => hparam m (List.mem_append_left _ hm))
  have hsingle := declareNames_eq src .own "param" _ (fun m hm => hparam m (List.mem_append_right _ hm))
  unfold Scope.declarations
  simp only [hc, if_true, getD_map_eq_flatMap]
  change (Scope.declareNames src .own "param" ((n.child? "parameters").toList.flatMap
    (fun p => p.namedChildren.flatMap Node.bindingLeaves))) = _ at hmany
  change (Scope.declareNames src .own "param" ((n.child? "parameter").toList.flatMap Node.bindingLeaves)) = _ at hsingle
  rw [hmany, hsingle]
  by_cases hd : Scope.declaredFunctionKinds.contains n.kind
  · have hn : ¬ Scope.namedFunctionKinds.contains n.kind :=
      (by decide : ∀ k ∈ Scope.declaredFunctionKinds, ¬ Scope.namedFunctionKinds.contains k) _ (List.contains_iff_mem.1 hd)
    rw [row, if_pos hd, row, if_neg hn] at h ⊢
    have hname := declareNames_eq src .around "function" _ (fun m hm => h ⟨.around, m, "function"⟩
      (List.mem_append_left _ (List.mem_append_left _ (List.mem_map_of_mem hm))))
    rw [if_pos hd, show (n.child? "name").toList = nameOf n from rfl, hname]
    simp [parameters, bind, Except.bind, pure, Except.pure]
  · rw [row, if_neg hd] at h ⊢
    rw [if_neg hd]
    by_cases hn : Scope.namedFunctionKinds.contains n.kind
    · rw [row, if_pos hn] at h ⊢
      have hname := declareNames_eq src .own "local" _ (fun m hm => h ⟨.own, m, "local"⟩
        (List.mem_append_left _ (List.mem_append_right _ (List.mem_map_of_mem hm))))
      rw [if_pos hn, show (n.child? "name").toList = nameOf n from rfl, hname]
      simp [parameters, bind, Except.bind, pure, Except.pure]
    · rw [row, if_neg hn]
      rw [if_neg hn]
      simp [parameters, bind, Except.bind, pure, Except.pure]

/-- Where both the table and the definition have a single line, the line decides. -/
theorem declarations_of_line {src : Bytes} {isBody : Bool} {n : Node} (reach : Reach) (kind : String) (leaves : List Node)
    (hm : makings src isBody n = leaves.map (⟨reach, ·, kind⟩))
    (hd : Scope.declarations src isBody n = Scope.declareNames src reach kind leaves)
    (h : ∀ m ∈ makings src isBody n, Readable src m.leaf) :
    Scope.declarations src isBody n = .ok ((makings src isBody n).map (Making.declaration src)) := by
  rw [hm] at h ⊢
  rw [hd]
  exact declareNames_eq src reach kind leaves (fun m hm => h ⟨reach, m, kind⟩ (List.mem_map_of_mem hm))

theorem declarations_classDeclaration {src : Bytes} {isBody : Bool} {n : Node}
    (hc : Scope.classDeclarationKinds.contains n.kind) (h : ∀ m ∈ makings src isBody n, Readable src m.leaf) :
    Scope.declarations src isBody n = .ok ((makings src isBody n).map (Making.declaration src)) := by
  refine declarations_of_line .around "class" (nameOf n) (makings_classDeclaration hc) ?_ h
  have h₁ : ¬ Scope.functionKinds.contains n.kind :=
    (by decide : ∀ k ∈ Scope.classDeclarationKinds, ¬ Scope.functionKinds.contains k) _ (List.contains_iff_mem.1 hc)
  unfold Scope.declarations
  rw [if_neg h₁, if_pos hc]; rfl

theorem declarations_class {src : Bytes} {isBody : Bool} {n : Node} (hk : n.kind = "class")
    (h : ∀ m ∈ makings src isBody n, Readable src m.leaf) :
    Scope.declarations src isBody n = .ok ((makings src isBody n).map (Making.declaration src)) := by
  refine declarations_of_line .own "local" (nameOf n) ?_ ?_ h
  · rw [makings_other (by rw [hk]; decide) (by rw [hk]; decide)]; simp [row, loopRow, hk]
  · simp [Scope.declarations, hk, Scope.functionKinds, Scope.classDeclarationKinds, nameOf]

theorem loopHead_eq {src : Bytes} {n : Node} (hloop : n.kind = "for_in_statement") (hkey : ∀ m ∈ keywords n, Readable src m)
    (h : ∀ m ∈ loopRow src n, Readable src m.leaf) :
    Scope.loopHead src n = .ok ((loopRow src n).map (Making.declaration src)) := by
  rw [loopRow, if_pos (by simp [hloop])] at h ⊢
  unfold Scope.loopHead keyword? at *
  cases hchild : n.child? "kind" with
  | none => rfl
  | some k =>
    have hword : k.text src = .ok (word src k) := text_eq_word (hkey k (by simp [keywords, hloop, hchild]))
    rw [hchild] at h
    simp only [Option.map_some, Option.toList_some, List.flatMap_cons, List.flatMap_nil, List.append_nil] at h ⊢
    have hnames : (patternAt n "left").mapM (·.text src) = .ok ((patternAt n "left").map (word src)) :=
      mapM_text_eq (fun m hm => h ⟨if word src k == "var" then .variable_ else .own, m, word src k⟩ (List.mem_map_of_mem hm))
    rw [getD_map_eq_flatMap]
    change ((patternAt n "left").mapM (·.text src) >>= _) = _
    rw [hnames]
    simp only [bind, Except.bind, hword, pure, Except.pure, List.map_map]
    rfl

/-- A block declares what its head binds; the body of a function has no head. -/
theorem declarations_block {src : Bytes} {isBody : Bool} {n : Node} (hc : Scope.blockKinds.contains n.kind)
    (hkey : ∀ m ∈ keywords n, Readable src m) (h : ∀ m ∈ makings src isBody n, Readable src m.leaf) :
    Scope.declarations src isBody n = .ok ((makings src isBody n).map (Making.declaration src)) := by
  have h₁ : ¬ Scope.functionKinds.contains n.kind :=
    (by decide : ∀ k ∈ Scope.blockKinds, ¬ Scope.functionKinds.contains k) _ (List.contains_iff_mem.1 hc)
  have h₂ : ¬ Scope.classDeclarationKinds.contains n.kind :=
    (by decide : ∀ k ∈ Scope.blockKinds, ¬ Scope.classDeclarationKinds.contains k) _ (List.contains_iff_mem.1 hc)
  have hm : makings src isBody n
      = if isBody then [] else row n ["catch_clause"] .own "param" (patternAt n "parameter") ++ loopRow src n := by
    rw [makings_other h₁ h₂]
    simp only [Scope.blockKinds, List.contains_iff_mem, List.mem_cons, List.not_mem_nil, or_false] at hc
    rcases hc with hk | hk | hk | hk | hk <;> simp [row, hk]
  have hd : Scope.declarations src isBody n = if isBody then .ok [] else
      if n.kind == "for_in_statement" then Scope.loopHead src n
      else if n.kind == "catch_clause" then Scope.declareNames src .own "param" (patternAt n "parameter") else .ok [] := by
    unfold Scope.declarations
    rw [if_neg h₁, if_neg h₂, if_pos hc, if_neg (by
      have := (by decide : ∀ k ∈ Scope.blockKinds, ¬ (k == "class") = true) _ (List.contains_iff_mem.1 hc)
      exact this)]
    simp only [getD_map_eq_flatMap, patternAt]
  rw [hm] at h ⊢
  rw [hd]
  cases isBody with
  | true => rfl
  | false =>
    simp only [Bool.false_eq_true, if_false] at h ⊢
    by_cases hloop : n.kind = "for_in_statement"
    · have hr : row n ["catch_clause"] .own "param" (patternAt n "parameter") = [] := by simp [row, hloop]
      rw [hr, List.nil_append] at h ⊢
      rw [if_pos (by simp [hloop])]
      exact loopHead_eq hloop hkey h
    · have hl : loopRow src n = [] := by simp [loopRow, hloop]
      rw [hl, List.append_nil] at h ⊢
      rw [if_neg (by simp [hloop])]
      by_cases hcatch : n.kind = "catch_clause"
      · rw [row, if_pos (by simp [hcatch])] at h ⊢
        rw [if_pos (by simp [hcatch]), declareNames_eq src .own "param" _ (fun m hm =>
          h ⟨.own, m, "param"⟩ (List.mem_map_of_mem hm))]
      · rw [if_neg (by simp [hcatch]), row, if_neg (by simp [hcatch])]; rfl

theorem declarations_lexical {src : Bytes} {isBody : Bool} {n : Node} (hk : n.kind = "lexical_declaration")
    (hkey : ∀ m ∈ keywords n, Readable src m) (h : ∀ m ∈ makings src isBody n, Readable src m.leaf) :
    Scope.declarations src isBody n = .ok ((makings src isBody n).map (Making.declaration src)) := by
  have hm : makings src isBody n = (patterns n).map (⟨.around, ·, (keyword? src n).getD "let"⟩) := by
    rw [makings_other (by rw [hk]; decide) (by rw [hk]; decide)]; cases isBody <;> simp [row, loopRow, hk]
  rw [hm] at h ⊢
  have hrow := declareNames_eq src .around ((keyword? src n).getD "let") (patterns n)
    (fun m hm => h ⟨.around, m, _⟩ (List.mem_map_of_mem hm))
  unfold keyword? patterns at hrow ⊢
  cases hchild : n.child? "kind" with
  | none =>
    rw [hchild] at hrow
    simpa [Scope.declarations, hk, Scope.functionKinds, Scope.classDeclarationKinds, Scope.blockKinds, hchild, bind,
      Except.bind] using hrow
  | some k =>
    have hword : k.text src = .ok (word src k) := text_eq_word (hkey k (by simp [keywords, hk, hchild]))
    rw [hchild] at hrow
    simpa [Scope.declarations, hk, Scope.functionKinds, Scope.classDeclarationKinds, Scope.blockKinds, hchild, hword, bind,
      Except.bind] using hrow

/-- A namespace is declared by a name that is no string. -/
theorem declarations_namespace {src : Bytes} {isBody : Bool} {n : Node} (hk : n.kind = "internal_module" ∨ n.kind = "module")
    (h : ∀ m ∈ makings src isBody n, Readable src m.leaf) :
    Scope.declarations src isBody n = .ok ((makings src isBody n).map (Making.declaration src)) := by
  refine declarations_of_line .around "namespace" ((nameOf n).filter (·.kind == "identifier")) ?_ ?_ h
  · rcases hk with hk | hk <;> rw [makings_other (by rw [hk]; decide) (by rw [hk]; decide)] <;>
      cases isBody <;> simp [row, loopRow, hk]
  · unfold nameOf
    cases hchild : n.child? "name" with
    | none =>
      rcases hk with hk | hk <;>
        simp [Scope.declarations, hk, Scope.functionKinds, Scope.classDeclarationKinds, Scope.blockKinds, hchild,
          Scope.declareNames, pure, Except.pure]
    | some m =>
      by_cases hm : m.kind = "identifier" <;> rcases hk with hk | hk <;>
        simp [Scope.declarations, hk, Scope.functionKinds, Scope.classDeclarationKinds, Scope.blockKinds, hchild, hm,
          Scope.declareNames, pure, Except.pure]

/-- The kinds that declare by one line of the table, or not at all. -/
theorem declarations_single {src : Bytes} {isBody : Bool} {n : Node} (h₁ : ¬ Scope.functionKinds.contains n.kind)
    (h₂ : ¬ Scope.classDeclarationKinds.contains n.kind) (h₃ : n.kind ≠ "class") (h₄ : ¬ Scope.blockKinds.contains n.kind)
    (h₅ : n.kind ≠ "lexical_declaration") (h : ∀ m ∈ makings src isBody n, Readable src m.leaf) :
    Scope.declarations src isBody n = .ok ((makings src isBody n).map (Making.declaration src)) := by
  have hcatch : n.kind ≠ "catch_clause" := fun e => h₄ (by rw [e]; decide)
  have hloop : n.kind ≠ "for_in_statement" := fun e => h₄ (by rw [e]; decide)
  have hm : makings src isBody n = row n ["variable_declaration"] .variable_ "var" (patterns n)
      ++ row n ["import_statement"] .around "module" (Scope.importedNames n)
      ++ row n ["import_alias"] .around "module" (n.namedChildren.find? (·.kind == "identifier")).toList
      ++ row n ["enum_declaration"] .around "enum" (nameOf n)
      ++ row n ["internal_module", "module"] .around "namespace" ((nameOf n).filter (·.kind == "identifier")) := by
    rw [makings_other h₁ h₂]; cases isBody <;> simp [row, loopRow, h₃, h₅, hcatch, hloop]
  by_cases hvar : n.kind = "variable_declaration"
  · refine declarations_of_line .variable_ "var" (patterns n) ?_ ?_ h
    · rw [hm]; simp [row, hvar]
    · simp [Scope.declarations, hvar, Scope.functionKinds, Scope.classDeclarationKinds, Scope.blockKinds, patterns]
  by_cases himport : n.kind = "import_statement"
  · refine declarations_of_line .around "module" (Scope.importedNames n) ?_ ?_ h
    · rw [hm]; simp [row, himport]
    · simp [Scope.declarations, himport, Scope.functionKinds, Scope.classDeclarationKinds, Scope.blockKinds]
  by_cases halias : n.kind = "import_alias"
  · refine declarations_of_line .around "module" (n.namedChildren.find? (·.kind == "identifier")).toList ?_ ?_ h
    · rw [hm]; simp [row, halias]
    · simp [Scope.declarations, halias, Scope.functionKinds, Scope.classDeclarationKinds, Scope.blockKinds]
  by_cases henum : n.kind = "enum_declaration"
  · refine declarations_of_line .around "enum" (nameOf n) ?_ ?_ h
    · rw [hm]; simp [row, henum]
    · simp [Scope.declarations, henum, Scope.functionKinds, Scope.classDeclarationKinds, Scope.blockKinds, nameOf]
  by_cases hspace : n.kind = "internal_module" ∨ n.kind = "module"
  · exact declarations_namespace hspace h
  · rw [not_or] at hspace
    rw [hm]
    unfold Scope.declarations
    rw [if_neg h₁, if_neg h₂, if_neg (by simp [h₃]), if_neg h₄]
    simp [row, hvar, h₅, himport, halias, henum, hspace.1, hspace.2]

/-- **The table says what a node declares.** -/
theorem declarations_eq {src : Bytes} {isBody : Bool} {n : Node} (h : ∀ m ∈ readNodes src isBody n, Readable src m) :
    Scope.declarations src isBody n = .ok ((makings src isBody n).map (Making.declaration src)) := by
  have hkey : ∀ m ∈ keywords n, Readable src m := fun m hm => h m (List.mem_append_left _ hm)
  have hleaf : ∀ m ∈ makings src isBody n, Readable src m.leaf := fun m hm =>
    h m.leaf (List.mem_append_right _ (List.mem_map_of_mem hm))
  by_cases h₁ : Scope.functionKinds.contains n.kind
  · exact declarations_function h₁ hleaf
  by_cases h₂ : Scope.classDeclarationKinds.contains n.kind
  · exact declarations_classDeclaration h₂ hleaf
  by_cases h₃ : n.kind = "class"
  · exact declarations_class h₃ hleaf
  by_cases h₄ : Scope.blockKinds.contains n.kind
  · exact declarations_block h₄ hkey hleaf
  by_cases h₅ : n.kind = "lexical_declaration"
  · exact declarations_lexical h₅ hkey hleaf
  · exact declarations_single h₁ h₂ h₃ h₄ h₅ hleaf

end Lexical
end TagAlias
