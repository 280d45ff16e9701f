import TagAlias.Proofs.Alias.Planned
import TagAlias.Proofs.Alias.Settled
import TagAlias.Proofs.Component.Attribution
/-!
# What transforming does to a text

A transformed text is the given one with a segment for each point put in, in order of the offsets (`code_of_finish`);
without the segments it is the given text again.  It differs from that exactly where a tag needs an alias
(`points_ne_nil_iff`, `exists_qualifies_iff`).  Where nodes begin and end at boundaries of characters, every collection can
be carried out (`exists_finish`).
-/
namespace TagAlias

namespace Plan

/-- Where a point is and what it puts in: its lead, then for each name a declaration and the separator. -/
def segment (stem : String) (q : InsertionPoint) : Nat × Bytes :=
  (q.offset.toNat, Bytes.ofString (q.lead ++
    String.join (q.names.map (fun x => "const " ++ x ++ " = this." ++ stem ++ x ++ ";" ++ q.separator))))

variable {p : Plan}

theorem edits_eq_segments (h : p.offsets.Nodup) (hnames : ∀ q ∈ p.points, q.names ≠ []) (stem : String) :
    p.edits stem = p.ascending.map (segment stem) := by
  have hall : p.ascending.filter (fun q => !q.names.isEmpty) = p.ascending := by
    refine List.filter_eq_self.2 (fun q hq => ?_)
    have := hnames q (p.ascending_perm.mem_iff.1 hq)
    simpa using this
  rw [edits, editsOf, ← ascending_eq h, hall]
  rfl

end Plan

namespace Alias

/-! ## Carrying a plan out -/

section

variable {rule : Rule} {file : String} {methods : List (ComponentMethod × List TagReference)} {c : Collection}
  (h : collect rule file methods = .ok c)

include h

theorem segments_within {src : Bytes} (hin : c.plan.Inside src) (stem : String) :
    Edits.Within 0 src (c.plan.ascending.map (Plan.segment stem)) := by
  rw [← Plan.edits_eq_segments (offsets_nodup h) (fun q hq => names_ne_nil h hq)]
  exact Plan.within_edits (offsets_nodup h) hin

/-- **Something is planned exactly where a reference needs an alias.** -/
theorem points_ne_nil_iff : c.plan.points ≠ [] ↔ ∃ m ∈ methods, ∃ r ∈ m.2, rule.qualifies r = true := by
  constructor
  · intro hne
    obtain ⟨q, hq⟩ := List.exists_mem_of_ne_nil _ hne
    obtain ⟨m, hm, -, r, hr, hqualifies⟩ := (exists_point_iff h q.offset).1 ⟨q, hq, rfl⟩
    exact ⟨m, hm, r, hr, hqualifies⟩
  · rintro ⟨⟨m, refs⟩, hm, r, hr, hqualifies⟩
    have hstep : (m, r) ∈ steps methods := mem_steps_iff.2 ⟨refs, hm, hr⟩
    obtain ⟨o, ho⟩ := target_collect h hstep hqualifies
    have hname := (hasName_collect_iff h o r.name).2 ⟨(m, r), hstep, hqualifies, ho, rfl⟩
    obtain ⟨q, hq, -⟩ := Plan.exists_of_hasName hname
    have hmem : q ∈ c.plan.points := List.mem_of_find?_eq_some hq
    exact List.ne_nil_of_mem hmem

theorem target_of_mem_points {q : InsertionPoint} (hq : q ∈ c.plan.points) :
    ∃ m ∈ methods, target? m.1 = some q.offset := by
  obtain ⟨m, hm, hstart, r, hr, hqualifies⟩ := (exists_point_iff h q.offset).1 ⟨q, hq, rfl⟩
  have hstep : (m.1, r) ∈ steps methods := mem_steps_iff.2 ⟨m.2, hm, hr⟩
  obtain ⟨o, ho⟩ := target_collect h hstep hqualifies
  have hlacks : lacksBody m.1 = false := by
    rw [← Bool.not_eq_true, ← target?_eq_none_iff, ho]
    exact Option.some_ne_none o
  exact ⟨m, hm, by rw [target?_of_not_lacksBody hlacks, hstart]⟩

/-- Where something is planned, something is put in. -/
theorem gain_pos (hne : c.plan.points ≠ []) (stem : String) :
    0 < Edits.gain (fun _ => true) (c.plan.ascending.map (Plan.segment stem)) := by
  have hascending : c.plan.ascending ≠ [] := fun hnil => hne (by
    have hperm := c.plan.ascending_perm
    rw [hnil] at hperm
    exact hperm.nil_eq.symm)
  obtain ⟨q, qs, hcons⟩ := List.exists_cons_of_ne_nil hascending
  have hq : q ∈ c.plan.points := c.plan.ascending_perm.mem_iff.1 (by rw [hcons]; exact List.mem_cons_self)
  obtain ⟨x, xs, hnames⟩ := List.exists_cons_of_ne_nil (names_ne_nil h hq)
  have hsplit : (Plan.segment stem q).2 = Bytes.ofString q.lead ++ (Bytes.ofString "const " ++
      Bytes.ofString (x ++ " = this." ++ stem ++ x ++ ";" ++ q.separator ++
        String.join (xs.map (fun x => "const " ++ x ++ " = this." ++ stem ++ x ++ ";" ++ q.separator)))) := by
    simp only [Plan.segment, hnames, List.map_cons, String.join_cons, ← ofString_append, String.append_assoc]
  have hconst : (Bytes.ofString "const ").length = 6 := by decide
  rw [hcons, List.map_cons, Edits.gain, if_pos rfl, hsplit, List.length_append, List.length_append, hconst]
  omega

end

/-! ## Tags that need aliases -/

/-- A tag, under its nearest component method, that needs an alias: the root of its name begins with a capital letter of
ASCII, the policy does not skip it, and nothing that holds where the tag stands declares it. -/
structure NeedsAlias (rule : Rule) (src : Bytes) (root : Node) (p q : Place) : Prop where
  place : q ∈ root.places none []
  nearest : Component.IsNearest src rule.stem root p q
  tag : ∃ levels r x, Component.IsTag q.node levels r ∧ r.text src = .ok x ∧ isComponentName x = true ∧
    ¬ (0 < levels ∧ rule.policy = .skipped) ∧
    ∃ scopes, Scopes.ofTree src root = .ok scopes ∧ scopes.isBoundAt q.path x = false

theorem asks_iff {rule : Rule} {r : TagReference} :
    rule.asks r = true ↔ isComponentName r.name = true ∧ ¬ (r.isMemberRoot = true ∧ rule.policy = .skipped) := by
  rw [Rule.asks, Bool.and_eq_true, Bool.not_eq_true', ← Bool.not_eq_true, Bool.and_eq_true, beq_iff_eq]

theorem bindsOf_eq {src : Bytes} {root : Node} {scopes : Scopes} (h : Scopes.ofTree src root = .ok scopes) :
    Survey.bindsOf src root = scopes.isBoundAt := by
  unfold Survey.bindsOf
  rw [h]

/-- **A reference needs an alias exactly where a tag does.** -/
theorem exists_qualifies_iff {rule : Rule} {src : Bytes} {root : Node}
    (hfault : (Survey.ofTree src rule.stem rule.asks root).fault = none) :
    (∃ m ∈ (Survey.ofTree src rule.stem rule.asks root).methods, ∃ r ∈ m.2, rule.qualifies r = true) ↔
      ∃ p q, NeedsAlias rule src root p q := by
  constructor
  · rintro ⟨m, hm, r, hr, hqualifies⟩
    obtain ⟨p, q, hq, hnearest, hrefers, hknown⟩ := Survey.exists_nearest_of_mem hfault hm hr
    obtain ⟨levels, root', at_, htag, htext, hmember, -⟩ := hrefers.root
    obtain ⟨hasks, hbound⟩ := qualifies_iff.1 hqualifies
    obtain ⟨hname, hpolicy⟩ := asks_iff.1 hasks
    obtain ⟨scopes, hscopes⟩ := hknown hasks
    refine ⟨p, q, hq, hnearest, levels, root', r.name, htag, htext, hname, ?_, scopes, hscopes, ?_⟩
    · rw [← hmember]
      exact hpolicy
    · rw [← bindsOf_eq hscopes, ← hrefers.bound, hbound]
  · rintro ⟨p, q, hq, hnearest, levels, root', x, htag, htext, hname, hpolicy, scopes, hscopes, hbound⟩
    obtain ⟨m, hm, r, hr, hrefers⟩ := Survey.exists_mem_of_nearest hfault hq hnearest htag
    obtain ⟨levels', root'', at_, htag', htext', hmember, -⟩ := hrefers.root
    obtain ⟨rfl, hlevels⟩ := htag.unique htag'
    have hsame : r.name = x := Except.ok.inj (htext'.symm.trans htext)
    refine ⟨m, hm, r, hr, qualifies_iff.2 ⟨asks_iff.2 ⟨?_, ?_⟩, ?_⟩⟩
    · rw [hsame]
      exact hname
    · rw [hmember, ← hlevels]
      exact hpolicy
    · rw [hrefers.bound, bindsOf_eq hscopes, hsame, hbound]

/-! ## Transforming -/

theorem read_eq_ok_iff {file text : String} {parse : Parse} {d : Dialect} {m : Module} :
    Module.read parse file d text = .ok m ↔ ∃ root, parse d text.toList = some root ∧ root.hasFault = false ∧
      m = ⟨file, d, Bytes.ofString text, root⟩ := by
  unfold Module.read Module.ofTree
  cases parse d text.toList with
  | none => simp
  | some root =>
    constructor
    · intro h
      dsimp only at h
      split at h
      · cases h
      · rename_i hfault
        exact ⟨root, rfl, Bool.eq_false_iff.2 hfault, (Except.ok.inj h).symm⟩
    · rintro ⟨_, hroot, hfault, rfl⟩
      cases hroot
      dsimp only
      rw [hfault, if_neg Bool.false_ne_true]

theorem src_of_read {file text : String} {parse : Parse} {d : Dialect} {m : Module}
    (h : Module.read parse file d text = .ok m) : m.src = Bytes.ofString text := by
  obtain ⟨root, -, -, rfl⟩ := read_eq_ok_iff.1 h
  rfl

variable {t : Transformer} {text file : String} {dialect : Option String} {parse : Parse}

theorem transform_eq_ok_iff {r : Transformed} : t.transform parse text file dialect = .ok r ↔
    ∃ d m c, Dialect.resolve file t.overrides dialect = .ok d ∧ Module.read parse file d text = .ok m ∧
      collectSurvey t.rule file (m.survey t.rule.stem t.rule.asks) = .ok c ∧ t.finish file text c = .ok r := by
  unfold Transformer.transform
  constructor
  · intro h
    cases hd : Dialect.resolve file t.overrides dialect with
    | error e => rw [hd] at h; cases h
    | ok d =>
      cases hm : Module.read parse file d text with
      | error e => simp only [bind, Except.bind, hd, hm] at h; cases h
      | ok m =>
        cases hc : collectSurvey t.rule file (m.survey t.rule.stem t.rule.asks) with
        | error e => simp only [bind, Except.bind, hd, hm, hc] at h; cases h
        | ok c =>
          simp only [bind, Except.bind, hd, hm, hc] at h
          exact ⟨d, m, c, rfl, hm, hc, h⟩
  · rintro ⟨d, m, c, hd, hm, hc, h⟩
    simp only [bind, Except.bind, hd, hm, hc]
    exact h

/-- **The code is the text with the segments of all points put in.** -/
theorem code_of_finish {methods : List (ComponentMethod × List TagReference)} {c : Collection}
    (h : collect t.rule file methods = .ok c) {r : Transformed} (hr : t.finish file text c = .ok r) :
    c.plan.Inside (Bytes.ofString text) ∧ Bytes.ofString r.code =
      Edits.weave (Bytes.ofString text) 0 (c.plan.ascending.map (Plan.segment t.rule.stem)) := by
  obtain ⟨bytes, code, hsplice, hcode, rfl⟩ := finish_eq_ok_iff.1 hr
  have hin := inside_of_splice hsplice
  have hweave : c.plan.splice t.rule.stem (Bytes.ofString text) =
      .ok (Edits.weave (Bytes.ofString text) 0 (c.plan.edits t.rule.stem)) := Plan.splice_eq_weave hin
  refine ⟨hin, ?_⟩
  rw [← Plan.edits_eq_segments (offsets_nodup h) (fun q hq => names_ne_nil h hq), ofString_of_toString? hcode]
  exact Except.ok.inj (hsplice.symm.trans hweave)

/-- **The code is not the text exactly where something is planned.** -/
theorem code_ne_iff {methods : List (ComponentMethod × List TagReference)} {c : Collection}
    (h : collect t.rule file methods = .ok c) {r : Transformed} (hr : t.finish file text c = .ok r) :
    r.code ≠ text ↔ c.plan.points ≠ [] := by
  obtain ⟨hin, hcode⟩ := code_of_finish h hr
  constructor
  · intro hne hnone
    have hascending : c.plan.ascending = [] := by rw [Plan.ascending, hnone, List.mergeSort_nil]
    rw [hascending, List.map_nil, Edits.weave, List.drop_zero] at hcode
    have hback := toString?_ofString r.code
    rw [hcode, toString?_ofString] at hback
    exact hne (Except.ok.inj hback).symm
  · intro hne hsame
    have hlength := Edits.length_weave _ _ _ (segments_within h hin t.rule.stem)
    have hgain := gain_pos h hne t.rule.stem
    rw [← hcode, hsame] at hlength
    omega

/-- **Where nodes begin and end at boundaries, every collection is carried out.** -/
theorem exists_finish {root : Node} (hroot : ∀ n ∈ root.preorder, Bytes.IsBoundary (Bytes.ofString text) n.start ∧
      Bytes.IsBoundary (Bytes.ofString text) n.stop) {c : Collection}
    (hc : collectSurvey t.rule file (Survey.ofTree (Bytes.ofString text) t.rule.stem t.rule.asks root) = .ok c) :
    ∃ r, t.finish file text c = .ok r := by
  obtain ⟨hcollect, -⟩ := collectSurvey_ok hc
  have hboundary : ∀ q ∈ c.plan.points, 0 ≤ q.offset ∧ Bytes.IsBoundary (Bytes.ofString text) q.offset.toNat := by
    intro q hq
    obtain ⟨m, hm, htarget⟩ := target_of_mem_points hcollect hq
    obtain ⟨p, hp, hmethod⟩ := Survey.exists_place_of_mem_methods hm
    obtain ⟨body, k, lead, hbody, hstart, hk⟩ := Component.body_of_target hmethod htarget
    obtain ⟨n, hn, hoffset⟩ := (Component.takesAt_of_bodyStart hstart).boundary
    have hbelow : n ∈ p.node.preorder :=
      Node.preorder_trans _ (Node.mem_preorder_of_child? hbody) (Node.mem_preorder_of_mem_children hn)
    have hin : n ∈ root.preorder :=
      Node.preorder_trans _ (Node.mem_preorder_of_mem_places hp) hbelow
    obtain ⟨hbegins, hends⟩ := hroot n hin
    rw [hk]
    refine ⟨Int.natCast_nonneg k, ?_⟩
    rcases hoffset with rfl | rfl
    · exact hbegins
    · exact hends
  have hinside : c.plan.Inside (Bytes.ofString text) := by
    intro q hq _
    obtain ⟨hpos, hle, -⟩ := hboundary q hq
    omega
  have hencodes : Utf8.Encodes (Edits.weave (Bytes.ofString text) 0 (c.plan.edits t.rule.stem)) := by
    refine Edits.encodes_weave (encodes_ofString text) _ 0 (Plan.within_edits (offsets_nodup hcollect) hinside) ⟨[], rfl⟩ ?_
    intro e he
    obtain ⟨q, hq, -, rfl⟩ := Plan.mem_edits.1 he
    exact ⟨encodes_ofString _, (hboundary q hq).2.2⟩
  obtain ⟨cs, hcs⟩ := (Utf8.encodes_iff _).1 hencodes
  have hcode : (Edits.weave (Bytes.ofString text) 0 (c.plan.edits t.rule.stem)).toString? = .ok (String.ofList cs) := by
    rw [Bytes.toString?, hcs]
    rfl
  exact ⟨_, finish_ok hinside hcode⟩

/-- **What transforming does to a text.**  The points of the plan lie within the text, no two at the same offset.  The code is
the text with the segment of each point put in at its offset; taken out again, they leave the text.  The code is another
than the text exactly if some tag in a component method needs an alias.  Where nodes begin and end at boundaries of
characters, transforming fails only where collecting does. -/
theorem transform_fidelity (t : Transformer) (parse : Parse) (text file : String) (dialect : Option String) :
    (∀ r, t.transform parse text file dialect = .ok r →
      ∃ d m, Dialect.resolve file t.overrides dialect = .ok d ∧ Module.read parse file d text = .ok m ∧
        r.plan.ascending.Perm r.plan.points ∧ r.plan.ascending.Pairwise (fun a b => a.offset < b.offset) ∧
        (∀ q ∈ r.plan.points, q.names ≠ [] ∧ 0 ≤ q.offset ∧ q.offset ≤ (Bytes.ofString text).length) ∧
        Bytes.ofString r.code =
          Edits.weave (Bytes.ofString text) 0 (r.plan.ascending.map (Plan.segment t.rule.stem)) ∧
        Edits.unweave 0 (r.plan.ascending.map (Plan.segment t.rule.stem)) (Bytes.ofString r.code) = Bytes.ofString text ∧
        (r.code ≠ text ↔ ∃ p q, NeedsAlias t.rule (Bytes.ofString text) m.tree p q)) ∧
    ∀ d m c, Dialect.resolve file t.overrides dialect = .ok d → Module.read parse file d text = .ok m →
      collectSurvey t.rule file (m.survey t.rule.stem t.rule.asks) = .ok c →
      (∀ n ∈ m.tree.preorder, Bytes.IsBoundary (Bytes.ofString text) n.start ∧ Bytes.IsBoundary (Bytes.ofString text) n.stop) →
      ∃ r, t.transform parse text file dialect = .ok r := by
  constructor
  · intro r h
    obtain ⟨d, m, c, hd, hm, hc, hfinish⟩ := transform_eq_ok_iff.1 h
    rw [Module.survey, src_of_read hm] at hc
    obtain ⟨hcollect, hfault⟩ := collectSurvey_ok hc
    have hplan : r.plan = c.plan := by
      obtain ⟨_, _, -, -, rfl⟩ := finish_eq_ok_iff.1 hfinish
      rfl
    obtain ⟨hin, hcode⟩ := code_of_finish hcollect hfinish
    have hnames : ∀ q ∈ c.plan.points, q.names ≠ [] := fun q hq => names_ne_nil hcollect hq
    have hunweave := Edits.unweave_weave _ _ _ (segments_within hcollect hin t.rule.stem)
    have hchanged : r.code ≠ text ↔ ∃ p q, NeedsAlias t.rule (Bytes.ofString text) m.tree p q := by
      rw [code_ne_iff hcollect hfinish, points_ne_nil_iff hcollect, exists_qualifies_iff hfault]
    rw [hplan]
    refine ⟨d, m, hd, hm, c.plan.ascending_perm, Plan.ascending_pairwise_lt (offsets_nodup hcollect), ?_, hcode, ?_, hchanged⟩
    · intro q hq
      exact ⟨hnames q hq, hin q hq (hnames q hq)⟩
    · rw [hcode, hunweave, List.drop_zero]
  · intro d m c hd hm hc hboundaries
    have hc' := hc
    rw [Module.survey, src_of_read hm] at hc'
    obtain ⟨r, hr⟩ := exists_finish hboundaries hc'
    exact ⟨r, transform_eq_ok_iff.2 ⟨d, m, c, hd, hm, hc, hr⟩⟩

end Alias
end TagAlias
