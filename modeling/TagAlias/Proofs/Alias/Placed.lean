import TagAlias.Grammar.Cursor
import TagAlias.Proofs.Alias.Indented
import TagAlias.Proofs.Alias.Put
import TagAlias.Proofs.Alias.Settled
/-!
# Where the declarations of a plan are put

In a tree as parsers give it of a text without faults (`Shaped`) the points of a plan are well placed (`placed_of_collect`): the
declarations go between two statements of a block, behind directives alone, and the last of these is ended if nothing ends it
(`Opens`); all between them is blanks.  Where a line comment ends at a point, what goes in there has no line end, so that all of
it goes on with the comment.
-/
namespace TagAlias
namespace Alias

open Component (statements isDirective bodyStart separatorAt semicolon IsBraced)
open Node (Innermost)

/-! ## Places for declarations -/

/-- What has to stand in front of declarations at an offset of a block. -/
inductive Ended (src : Bytes) (block : Node) : Nat → String → Prop
  | before {s : Node} (h : s ∈ statements block) : Ended src block s.start ""
  | behind {s : Node} (h : s ∈ statements block) (directive : isDirective s = true) :
      Ended src block s.stop (if src.slice (s.stop - 1) s.stop == [semicolon] then " " else "; ")
  | alone {o : Nat} (h : statements block = []) : Ended src block o ""

/-- Declarations behind a lead can be put into a block at an offset: they go between its statements, with nothing but
directives in front. -/
structure Opens (src : Bytes) (block : Node) (o : Nat) (lead : String) : Prop where
  kind : block.kind = "statement_block"
  innermost : Innermost o block
  prologue : ∀ s ∈ statements block, isDirective s = true ∨ o ≤ s.start
  ended : Ended src block o lead

/-- There is no line end in a text. -/
def OnOneLine (s : String) : Prop := ∀ c ∈ s.toList, Grammar.endsLine c = false

/-- The declarations of a plan are put where a block takes them, or go into a line comment with all that is around them. -/
structure Placed (src : Bytes) (stem : String) (root : Node) (plan : Plan) : Prop where
  opens : ∀ q ∈ plan.points, isHeld src root q.offset.toNat = false →
    (∃ block ∈ root.preorder, Opens src block q.offset.toNat q.lead) ∧
      (Bytes.ofString q.separator).all Text.isBlankByte = true
  held : ∀ q ∈ plan.points, isHeld src root q.offset.toNat = true → OnOneLine (render stem q)

/-- A tree as it is read from a text, as far as it matters for what is put in: no comment is taken for a name, what a class
takes for a method has a block in braces as its body, if it has one, and neither names nor line comments go on over a line end. -/
structure Shaped (src : Bytes) (root : Node) : Prop extends Legible src root where
  uncommented : ∀ m ∈ root.preorder, ∀ isBody, ∀ k ∈ reads src isBody m, k.kind ≠ "comment"
  blocks : ∀ n ∈ root.preorder, n.kind ∈ Component.methodKinds → ∀ body, n.child? "body" = some body →
    n.kind = "method_definition" ∧ body.kind = "statement_block" ∧ IsBraced body
  names : ∀ n ∈ root.preorder, n.kind = "identifier" → ∀ s, n.text src = .ok s → OnOneLine s
  lines : ∀ n ∈ root.preorder, isLineComment src n = true → Text.lineFeed ∉ src.slice n.start n.stop

/-! ## Bodies -/

section

variable {src : Bytes} {body : Node} {o : Nat} {lead : String}

theorem ended_of_bodyStart (h : bodyStart src body = .ok (o, lead)) : Ended src body o lead := by
  unfold bodyStart at h
  split at h
  · next first rest hfirst =>
    cases h
    exact .before ((List.dropWhile_sublist _).subset (hfirst ▸ List.mem_cons_self))
  · next hall =>
    split at h
    · next last hlast =>
      cases h
      have hmem := List.mem_of_getLast? hlast
      exact .behind hmem (List.dropWhile_eq_nil_iff.1 hall last hmem)
    · next hnone =>
      split at h
      · cases h
        exact .alone (List.getLast?_eq_none_iff.1 hnone)
      · cases h

/-- Behind a local offset all statements but the directives in front begin. -/
theorem prologue_of_isLocal (hnested : body.Nested) (hlocal : Component.IsLocal body o) :
    ∀ s ∈ statements body, isDirective s = true ∨ o ≤ s.start := by
  intro s hs
  have hpairwise := hnested.childrenIn.pairwise.sublist (Component.statements_sublist body)
  rw [← List.takeWhile_append_dropWhile (p := isDirective) (l := statements body), List.mem_append] at hs
  rcases hs with hs | hs
  · exact .inl (List.mem_takeWhile_imp hs)
  · refine .inr ?_
    have hsub := hpairwise.sublist (List.dropWhile_sublist isDirective)
    cases hrest : (statements body).dropWhile isDirective with
    | nil => rw [hrest] at hs; cases hs
    | cons first rest =>
      have hfirst := hlocal.beforeFirst first (by rw [hrest, List.head?_cons])
      rw [hrest] at hs hsub
      rcases List.mem_cons.1 hs with rfl | hs
      · exact hfirst
      · have hmem : first ∈ statements body := (List.dropWhile_sublist isDirective).subset (hrest ▸ List.mem_cons_self)
        have hordered := (hnested.childrenIn.nested ((Component.statements_sublist body).subset hmem)).ordered
        have := (List.pairwise_cons.1 hsub).1 s hs
        omega

/-- **The start of a block in braces is a place for declarations.** -/
theorem opens_of_bodyStart (hnested : body.Nested) (hbraced : IsBraced body) (hkind : body.kind = "statement_block")
    (h : bodyStart src body = .ok (o, lead)) : Opens src body o lead := by
  obtain ⟨o', lead', h', hlocal⟩ := Component.bodyStart_isLocal src hnested hbraced
  rw [h] at h'
  cases h'
  have hstrictly := hlocal.strictly hnested hbraced
  exact ⟨hkind, ⟨hstrictly.1, hstrictly.2, hlocal.apart⟩, prologue_of_isLocal hnested hlocal, ended_of_bodyStart h⟩

end

/-! ## Separators -/

theorem blank_separatorAt (src : Bytes) (o : Nat) : (Bytes.ofString (separatorAt src o)).all Text.isBlankByte = true := by
  by_cases h : ∃ front indent, Text.Indented src o front indent
  · obtain ⟨front, indent, h⟩ := h
    rw [Component.ofString_separatorAt h, List.all_append, h.blank, Bool.and_true, Text.lineEndOf]
    split <;> rfl
  · rw [Component.separatorAt_of_not_indented h]
    rfl

/-- **At the end of a line comment declarations are followed by a single blank.** -/
theorem separatorAt_of_isLineComment {src : Bytes} {n : Node} (hcomment : isLineComment src n = true) (hle : n.start ≤ n.stop)
    (hline : Text.lineFeed ∉ src.slice n.start n.stop) : separatorAt src n.stop = " " := by
  refine Component.separatorAt_of_not_indented ?_
  rintro ⟨front, indent, h⟩
  rw [isLineComment, Bool.and_eq_true, beq_iff_eq, beq_iff_eq] at hcomment
  obtain ⟨rest, hrest⟩ : ∃ rest, src.slice n.start n.stop = 0x2f :: rest := by
    cases hslice : src.slice n.start n.stop with
    | nil => rw [hslice] at hcomment; cases hcomment.2
    | cons b rest =>
      rw [hslice, List.take_succ_cons] at hcomment
      exact ⟨rest, by rw [(List.cons.inj hcomment.2).1]⟩
  have hsplit := h.split
  rw [Edits.take_eq_append_slice hle] at hsplit
  obtain ⟨before, hbefore⟩ := List.getLast?_eq_some_iff.1 h.behindLine
  rcases List.append_eq_append_iff.1 hsplit with ⟨more, hfront, hslice⟩ | ⟨more, -, hindent⟩
  · -- The line would begin inside the comment.
    cases hmore : more with
    | nil =>
      rw [hmore, List.nil_append, hrest] at hslice
      have := h.blank
      rw [← hslice] at this
      simp [Text.isBlankByte] at this
    | cons b bs =>
      have hlast := h.behindLine
      rw [hfront, hmore, List.getLast?_append, List.getLast?_cons] at hlast
      refine hline (hslice ▸ List.mem_append_left _ ?_)
      rw [hmore]
      refine List.mem_of_getLast? (a := Text.lineFeed) ?_
      rw [List.getLast?_cons]
      simpa using hlast
  · have hmem : (0x2f : UInt8) ∈ indent := by
      rw [hindent, hrest]
      exact List.mem_append_right _ List.mem_cons_self
    have hblank := List.all_eq_true.1 h.blank _ hmem
    simp [Text.isBlankByte] at hblank

/-! ## The points of a plan -/

theorem OnOneLine.append {s t : String} (hs : OnOneLine s) (ht : OnOneLine t) : OnOneLine (s ++ t) := by
  intro c hc
  rw [String.toList_append, List.mem_append] at hc
  exact hc.elim (hs c) (ht c)

-- Decided along the text.  Characters are a finite type, and the instance found by itself may go through all of them.
instance (s : String) : Decidable (OnOneLine s) := List.decidableBAll (fun c => Grammar.endsLine c = false) s.toList

theorem onOneLine_of_isIdentifier {stem : String} (h : Text.isIdentifier stem = true) : OnOneLine stem := by
  have hneither : ['\n', '\r', '\u2028', '\u2029'].all (fun e => !Text.isIdentifierStart e && !Text.isIdentifierPart e) = true := by
    decide +kernel
  intro c hc
  by_contra hends
  have hmem : c ∈ ['\n', '\r', '\u2028', '\u2029'] := by
    simp only [Grammar.endsLine, Bool.not_eq_false, Bool.or_eq_true, beq_iff_eq] at hends
    rcases hends with ((rfl | rfl) | rfl) | rfl <;> simp
  obtain ⟨hstart, hpart⟩ : Text.isIdentifierStart c = false ∧ Text.isIdentifierPart c = false := by
    simpa using List.all_eq_true.1 hneither c hmem
  unfold Text.isIdentifier at h
  cases hs : stem.toList with
  | nil => rw [hs] at hc; cases hc
  | cons first rest =>
    rw [hs, Bool.and_eq_true, List.all_eq_true] at h
    rcases List.mem_cons.1 (hs ▸ hc) with rfl | hc
    · rw [hstart] at h
      cases h.1
    · rw [h.2 c hc] at hpart
      cases hpart

theorem Ended.onOneLine {src : Bytes} {block : Node} {o : Nat} {lead : String} (h : Ended src block o lead) : OnOneLine lead := by
  cases h with
  | before _ => decide
  | behind _ _ => split <;> decide
  | alone _ => decide

theorem onOneLine_render {stem : String} {q : InsertionPoint} (hstem : OnOneLine stem) (hlead : OnOneLine q.lead)
    (hnames : ∀ x ∈ q.names, OnOneLine x) (hseparator : OnOneLine q.separator) : OnOneLine (render stem q) := by
  have hjoin : OnOneLine (String.join (q.names.map (fun x => declaration stem x ++ q.separator))) := by
    intro c hc
    rw [String.toList_join, List.flatMap_map, List.mem_flatMap] at hc
    obtain ⟨x, hx, hc⟩ := hc
    have hname := hnames x hx
    have hdeclaration : OnOneLine (declaration stem x) :=
      ((((OnOneLine.append (by decide) hname).append (by decide)).append hstem).append hname).append (by decide)
    exact hdeclaration.append hseparator c hc
  exact hlead.append hjoin

section

variable {rule : Rule} {src : Bytes} {root : Node} {file : String} {c : Collection} (hshaped : Shaped src root)
  (hc : collectSurvey rule file (Survey.ofTree src rule.stem rule.asks root) = .ok c)

include hshaped

/-- The start of a method's body is a place for declarations. -/
theorem Shaped.opens_of_place {p : Place} (hp : p ∈ root.places none []) (hkind : p.node.kind ∈ Component.methodKinds)
    {body : Node} (hbody : p.node.child? "body" = some body) {o : Nat} {lead : String} (h : bodyStart src body = .ok (o, lead)) :
    Opens src body o lead := by
  have hat := Node.at?_of_mem_places hp
  obtain ⟨-, hblock, hbraced⟩ := hshaped.blocks p.node (Node.mem_preorder_of_at? p.path hat) hkind body hbody
  exact opens_of_bodyStart ((hshaped.nested.at? p.path hat).childrenIn.nested (Node.mem_children_of_child? hbody)) hbraced hblock h

theorem Shaped.opensBodies (stem : String) : OpensBodies src stem root := by
  intro p hp hown body hbody
  have hkind : p.node.kind ∈ Component.methodKinds := by
    rw [(Component.isOwnScope_iff.1 hown).1]
    decide
  have hnode := Node.mem_preorder_of_mem_places hp
  exact ⟨(hshaped.blocks p.node hnode hkind body hbody).2.1,
    fun o lead h => (hshaped.opens_of_place hp hkind hbody h).innermost⟩

include hc

/-- **Each point of a plan is that of a method with its own scope**, laid out as this asks for. -/
theorem Shaped.exists_takenBy {q : InsertionPoint} (hq : q ∈ c.plan.points) : ∃ p body, TakenBy src rule.stem root q p body := by
  obtain ⟨scopes, hscopes⟩ := Lexical.exists_ofTree hshaped.readable
  obtain ⟨hcollect, hfault⟩ := collectSurvey_ok hc
  obtain ⟨-, m, hm, hseparator, hlead, -⟩ := ((collect_planned rule file _).2.2 c hcollect).2.2.2 q hq
  have hstart : m.1.bodyStart = some q.offset := by
    have hfound := List.find?_some hm
    rw [Bool.and_eq_true, beq_iff_eq] at hfound
    exact hfound.1
  obtain ⟨p, hp⟩ := (mem_methods_iff hscopes hfault m.1 m.2).1 (List.mem_of_find?_eq_some hm)
  obtain ⟨name, hname, hmethod⟩ := hp.found.1
  obtain ⟨at_, -, hparts⟩ := Component.method_eq_ok_iff.1 hmethod
  cases hbody : p.node.child? "body" with
  | none =>
    rw [hbody] at hparts
    rw [hparts] at hstart
    cases hstart
  | some body =>
    rw [hbody] at hparts
    obtain ⟨o, lead, hbodyStart, heq⟩ := hparts
    rw [heq] at hstart hseparator hlead
    have ho : q.offset = (o : Int) := (Option.some.inj hstart).symm
    have hmethodKind := (Component.methodName?_eq_some_iff.1 hname).kind
    have hnode := Node.mem_preorder_of_mem_places hp.place
    obtain ⟨hkind, hblock, -⟩ := hshaped.blocks p.node hnode hmethodKind body hbody
    refine ⟨p, body, hp.place, Component.isOwnScope_iff.2 ⟨hkind, name, hname⟩, hbody, hblock,
      ⟨o, by rw [hbodyStart, hlead], ho, hseparator⟩, ?_⟩
    rw [ho]
    exact (hshaped.opens_of_place hp.place hmethodKind hbody hbodyStart).innermost

theorem Shaped.onOneLine_names {q : InsertionPoint} (hq : q ∈ c.plan.points) : ∀ x ∈ q.names, OnOneLine x := by
  obtain ⟨hcollect, hfault⟩ := collectSurvey_ok hc
  intro x hx
  obtain ⟨m, hm, -, r, hr, -, rfl⟩ := (mem_names_iff hcollect hq).1 hx
  obtain ⟨-, place, hplace, -, hrefers, -⟩ := Survey.exists_nearest_of_mem hfault hm hr
  obtain ⟨levels, u, -, htag, htext, -⟩ := hrefers.root
  obtain ⟨name, hname, hroots⟩ := htag.name
  have hin : place.node ∈ root.preorder := Node.mem_preorder_of_mem_places hplace
  have hbelow : u ∈ place.node.preorder :=
    Node.preorder_trans _ (Node.mem_preorder_of_child? hname) (Survey.mem_preorder_of_rootsAt hroots)
  exact hshaped.names u (Node.preorder_trans _ hin hbelow) htag.identifier _ htext

/-- **The points of a plan are well placed.** -/
theorem placed_of_collect (hstem : Text.isIdentifier rule.stem = true) : Placed src rule.stem root c.plan := by
  refine ⟨fun q hq _ => ?_, fun q hq hheld => ?_⟩
  · obtain ⟨p, body, h⟩ := hshaped.exists_takenBy hc hq
    obtain ⟨o, hstart, ho, hseparator⟩ := h.start
    have hkind : p.node.kind ∈ Component.methodKinds := by
      rw [(Component.isOwnScope_iff.1 h.own).1]
      decide
    have hnode := Node.mem_preorder_of_mem_places h.place
    refine ⟨⟨body, Node.preorder_trans _ hnode (Node.mem_preorder_of_child? h.child), ?_⟩, ?_⟩
    · rw [ho]
      exact hshaped.opens_of_place h.place hkind h.child hstart
    · rw [hseparator]
      exact blank_separatorAt src o
  · obtain ⟨p, body, h⟩ := hshaped.exists_takenBy hc hq
    obtain ⟨o, hstart, ho, hseparator⟩ := h.start
    refine onOneLine_render (onOneLine_of_isIdentifier hstem) (ended_of_bodyStart hstart).onOneLine
      (hshaped.onOneLine_names hc hq) ?_
    obtain ⟨n, hn, hcomment⟩ := List.any_eq_true.1 hheld
    rw [Bool.and_eq_true, beq_iff_eq, ho, Int.toNat_natCast] at hcomment
    have hspan := Node.Nested.span root hshaped.nested hn
    rw [hseparator, ← hcomment.2, separatorAt_of_isLineComment hcomment.1 hspan.2.1 (hshaped.lines n hn hcomment.1)]
    decide

end

end Alias
end TagAlias
