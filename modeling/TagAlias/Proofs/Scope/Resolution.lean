import TagAlias.Proofs.Scope.Lexical
/-!
# What a name means in a program

In a program every node has its place among the sites (`node_sitesOf`), and a name means at a node what the innermost
scope around it says that receives a declaration of the name, and there what the first declaration says, wherever it
stands (`lookup_lexical`).
-/
namespace TagAlias
namespace Lexical

open Scope (Reach Declaration)

/-! ## Programs -/

theorem makings_program {src : Bytes} {isBody : Bool} {n : Node} (hk : n.kind = "program") : makings src isBody n = [] := by
  rw [makings_other (by rw [hk]; decide) (by rw [hk]; decide)]
  cases isBody <;> simp [row, loopRow, hk]

theorem opens_program {isBody : Bool} {n : Node} (hk : n.kind = "program") : Scope.opens isBody n = none := by
  simp [Scope.opens, hk, Scope.functionKinds, Scope.blockKinds]

theorem encloses_program (j : Nat) : Encloses [([], "program")] ([] ++ [j]) := by
  refine ⟨⟨_, List.mem_singleton_self _, rfl⟩, fun q hq hp => ?_⟩
  rw [List.mem_singleton.1 hq] at hp
  simp at hp

theorem sitesOf_program {l : Label} {cs : List Node} (hk : (Node.mk l cs).kind = "program") :
    sitesOf (.mk l cs) = ⟨[], .mk l cs, false, [([], "program")]⟩ ::
      sitesAll [([], "program")] [] (Scope.functionKinds.contains l.kind) 0 cs := by
  rw [sitesOf, sites, Site.scopes, opens_program hk]; rfl

theorem receivedFrom_program (src : Bytes) {l : Label} {cs : List Node} (hk : (Node.mk l cs).kind = "program") (q : List Nat) :
    receivedFrom src (sitesOf (.mk l cs)) q =
      receivedFrom src (sitesAll [([], "program")] [] (Scope.functionKinds.contains l.kind) 0 cs) q := by
  rw [sitesOf_program hk, ← List.singleton_append, receivedFrom_append]
  have hnone : receipts src ⟨[], .mk l cs, false, [([], "program")]⟩ = [] := by
    rw [receipts, makings_program hk]; rfl
  rw [@receivedFrom_eq_nil src [⟨[], .mk l cs, false, [([], "program")]⟩] q (by simp [hnone]), List.nil_append]

/-- The scope of the program takes all that no scope in it takes. -/
theorem receivedFrom_root (src : Bytes) {l : Label} {cs : List Node} (hk : (Node.mk l cs).kind = "program")
    (hread : ∀ m ∈ (Node.mk l cs).preorder, Readable src m) :
    receivedFrom src (sitesOf (.mk l cs)) [] = (Scope.analyze src false (.mk l cs)).1 := by
  have hbelow := filter_goesTo_sitesAll src [([], "program")] [] (Scope.functionKinds.contains l.kind) 0 cs encloses_program
    (fun m hm => hread m (by rw [Node.preorder]; exact List.mem_cons_of_mem _ hm))
  have hcatch : ∀ d : Declaration, (toward [([], "program")] d).1 = [] := fun d => by
    unfold toward; cases d.reach <;> rfl
  have hhere : Scope.readable src false (.mk l cs) = [] := by
    rw [readable_eq (fun m hm => hread m (readNodes_subset_preorder hm)), makings_program hk]; rfl
  rw [receivedFrom_program src hk, receivedFrom_eq_of_goesTo (q := ([], "program")) List.mem_cons_self, hbelow,
    List.filter_eq_self.2 (fun e he => by
      obtain ⟨d, -, rfl⟩ := List.mem_map.1 he; exact beq_iff_eq.2 (hcatch d)),
    List.map_map, show ((·.2) ∘ toward [([], "program")]) = id from rfl, List.map_id, Scope.analyze, hhere,
    opens_program hk]
  rfl

theorem chainAt_eq (src : Bytes) {root : Node} (hk : root.kind = "program") (hread : ∀ m ∈ root.preorder, Readable src m) :
    ∃ s, Scopes.ofTree src root = .ok s ∧ ∀ site ∈ sitesOf root,
      s.chainAt site.path = site.scopes.map (Frame.scope (receivedFrom src (sitesOf root))) := by
  cases root with
  | mk l cs =>
    let takes := receivedFrom src (sitesOf (.mk l cs))
    let s : Scopes := ⟨(Scope.empty "program").declareAll (Scope.asBindings (Scope.analyze src false (.mk l cs)).1),
      (Scope.analyze src false (.mk l cs)).2⟩
    have hprogram : [s.program] = [([], "program")].map (Frame.scope takes) := by
      simp only [s, takes, List.map_cons, List.map_nil, Frame.scope, receivedFrom_root src hk hread]
    have htree : s.tree = .mk none (Scope.analyzeAll src (Scope.functionKinds.contains l.kind) cs).2 := by
      simp only [s, Scope.analyze, opens_program hk]
    refine ⟨s, by rw [Scopes.ofTree, fault?_eq_none src false _ hread], fun site hsite => ?_⟩
    rw [Scopes.chainAt, htree, hprogram]
    rw [sitesOf_program hk] at hsite
    rcases List.mem_cons.1 hsite with rfl | hsite
    · rw [Scopes.chainFrom, Site.scopes, opens_program hk]; rfl
    · obtain ⟨j, rel, u, hpath, hu, hchain⟩ := chainFrom_eqAll src takes _ [] _ 0 cs encloses_program
        (fun m hm => hread m (by rw [Node.preorder]; exact List.mem_cons_of_mem _ hm))
        (fun j _ q _ => receivedFrom_program src hk q) site hsite
      rw [hpath, List.nil_append, Nat.zero_add, Scopes.chainFrom, ScopeTree.children, hu]
      exact hchain

/-! ## Sites and paths -/

mutual

theorem node_sites : ∀ (around : List Frame) (path : List Nat) (isBody : Bool) (n : Node),
    (sites around path isBody n).map (·.node) = n.preorder
  | around, path, isBody, .mk l cs => by rw [sites, Node.preorder, List.map_cons, node_sitesAll]

theorem node_sitesAll : ∀ (around : List Frame) (path : List Nat) (seeksBody : Bool) (i : Nat) (cs : List Node),
    (sitesAll around path seeksBody i cs).map (·.node) = Node.preorderAll cs
  | _, _, _, _, [] => by rw [sitesAll, Node.preorderAll]; rfl
  | around, path, seeksBody, i, c :: cs => by
    rw [sitesAll, Node.preorderAll, List.map_append, node_sites, node_sitesAll]

end

mutual

theorem at?_of_mem_sites : ∀ (around : List Frame) (path : List Nat) (isBody : Bool) (n : Node),
    ∀ s ∈ sites around path isBody n, ∃ rel, s.path = path ++ rel ∧ n.at? rel = some s.node
  | around, path, isBody, .mk l cs, s, hs => by
    rw [sites] at hs
    rcases List.mem_cons.1 hs with rfl | hs
    · exact ⟨[], (List.append_nil path).symm, rfl⟩
    · obtain ⟨j, rel, hpath, hat⟩ := at?_of_mem_sitesAll _ path _ 0 cs s hs
      exact ⟨j :: rel, by rw [hpath, Nat.zero_add], hat⟩

theorem at?_of_mem_sitesAll : ∀ (around : List Frame) (path : List Nat) (seeksBody : Bool) (i : Nat) (cs : List Node),
    ∀ s ∈ sitesAll around path seeksBody i cs, ∃ j rel, s.path = path ++ (i + j) :: rel ∧
      cs[j]?.bind (·.at? rel) = some s.node
  | _, _, _, _, [], s, hs => by rw [sitesAll] at hs; cases hs
  | around, path, seeksBody, i, c :: cs, s, hs => by
    rw [sitesAll] at hs
    rcases List.mem_append.1 hs with hs | hs
    · obtain ⟨rel, hpath, hat⟩ := at?_of_mem_sites around _ _ c s hs
      exact ⟨0, rel, by rw [hpath, List.append_assoc]; rfl, hat⟩
    · obtain ⟨j, rel, hpath, hat⟩ := at?_of_mem_sitesAll around path _ (i + 1) cs s hs
      exact ⟨j + 1, rel, by rw [hpath, Nat.add_assoc, Nat.add_comm 1 j], by rw [List.getElem?_cons_succ]; exact hat⟩

end

theorem node_sitesOf (root : Node) : (sitesOf root).map (·.node) = root.preorder := node_sites _ _ _ root

theorem at?_of_mem_sitesOf {root : Node} {s : Site} (hs : s ∈ sitesOf root) : root.at? s.path = some s.node := by
  obtain ⟨rel, hpath, hat⟩ := at?_of_mem_sites _ [] _ root s hs
  rw [hpath]; exact hat

/-! ## The meaning of a name -/

theorem find?_scope (takes : List Nat → List Declaration) (q : Frame) (x : String) (hx : x ≠ "") :
    (q.scope takes).find? x = (Scope.asBindings (takes q.1)).lookup x := by
  rw [Frame.scope, Scope.find?_declareAll _ _ x hx, Scope.find?_empty, Option.none_or]

/-- **A name means what the innermost scope around says that receives a declaration of it, by the first it receives.** -/
theorem lookup_lexical (src : Bytes) (root : Node) (hroot : root.kind = "program")
    (hread : ∀ n ∈ root.preorder, Readable src n) :
    (sitesOf root).map (·.node) = root.preorder ∧
    ∃ scopes, Scopes.ofTree src root = .ok scopes ∧ ∀ site ∈ sitesOf root,
      root.at? site.path = some site.node ∧
      ∀ x, x ≠ "" → Scope.lookup (scopes.chainAt site.path) x =
        site.scopes.findSome? (fun q => (received src root q.1).lookup x) := by
  obtain ⟨scopes, hscopes, hchain⟩ := chainAt_eq src hroot hread
  refine ⟨node_sitesOf root, scopes, hscopes, fun site hsite => ⟨at?_of_mem_sitesOf hsite, fun x hx => ?_⟩⟩
  rw [hchain site hsite, Scope.lookup, List.findSome?_map]
  congr 1
  funext q
  exact find?_scope _ q x hx

/-- A function with a variable in an inner block and a use of it behind the block. -/
def hoistingText : String := "x => \x7b \x7b var A \x7d A \x7d"

def hoisting : Node :=
  .mk ⟨"program", 0, 20, "", true, false⟩ [.mk ⟨"expression_statement", 0, 20, "", true, false⟩
    [.mk ⟨"arrow_function", 0, 20, "", true, false⟩
      [.mk ⟨"identifier", 0, 1, "parameter", true, false⟩ [],
        .mk ⟨"=>", 2, 4, "", false, false⟩ [],
        .mk ⟨"statement_block", 5, 20, "body", true, false⟩
          [.mk ⟨"\x7b", 5, 6, "", false, false⟩ [],
            .mk ⟨"statement_block", 7, 16, "", true, false⟩
              [.mk ⟨"\x7b", 7, 8, "", false, false⟩ [],
                .mk ⟨"variable_declaration", 9, 14, "", true, false⟩
                  [.mk ⟨"var", 9, 12, "", false, false⟩ [],
                    .mk ⟨"variable_declarator", 13, 14, "", true, false⟩
                      [.mk ⟨"identifier", 13, 14, "name", true, false⟩ []]],
                .mk ⟨"\x7d", 15, 16, "", false, false⟩ []],
            .mk ⟨"expression_statement", 17, 18, "", true, false⟩
              [.mk ⟨"identifier", 17, 18, "", true, false⟩ []],
            .mk ⟨"\x7d", 19, 20, "", false, false⟩ []]]]]

/-- Behind the block the variable is bound, as the parameter is; around the function it is not. -/
theorem lookup_hoisting : ∃ scopes, Scopes.ofTree (Bytes.ofString hoistingText) hoisting = .ok scopes ∧
    Scope.lookup (scopes.chainAt [0, 0, 2, 2, 0]) "A" = some "var" ∧
    Scope.lookup (scopes.chainAt [0, 0, 2, 2, 0]) "x" = some "param" ∧ Scope.lookup (scopes.chainAt [0]) "A" = none := by
  obtain ⟨-, scopes, hscopes, h⟩ := lookup_lexical (Bytes.ofString hoistingText) hoisting rfl (by decide +kernel)
  have huse := (h _ (List.get_mem (sitesOf hoisting) ⟨15, by decide⟩)).2
  have houter := (h _ (List.get_mem (sitesOf hoisting) ⟨1, by decide⟩)).2
  rw [show ((sitesOf hoisting).get ⟨15, by decide⟩).path = [0, 0, 2, 2, 0] by decide] at huse
  rw [show ((sitesOf hoisting).get ⟨1, by decide⟩).path = [0] by decide] at houter
  refine ⟨scopes, hscopes, ?_, ?_, ?_⟩
  · rw [huse "A" (by decide)]; decide +kernel
  · rw [huse "x" (by decide)]; decide +kernel
  · rw [houter "A" (by decide)]; decide +kernel

end Lexical
end TagAlias
