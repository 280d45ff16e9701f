import TagAlias.Proofs.Alias.Placed
import TagAlias.Proofs.Alias.Reported
/-!
# Transforming what was transformed

What a transform returns is read again by the same parser.  Relied on of the parser is what it makes of whole declarations where
a block takes them and of anything without a line end at the end of a line comment (`Rereads`): the former are statements of the
block, the latter belongs to the comment.  That the transform puts declarations in at such places alone, and which block each of
them comes to stand in, is proved (`placed_of_collect`, `landed_child`).  So the new text is accepted exactly if no declaration
outside comments has a hyphen in its name (`accepted_transform_iff`), and then transforming again changes nothing exactly if every
tag that needs an alias is reached by a declaration outside comments (`transform_again_iff`).
-/
namespace TagAlias
namespace Alias

/-- The parser gives a tree of the text that has no fault. -/
def Accepted (parse : Parse) (d : Dialect) (text : String) : Prop :=
  ∃ root, parse d text.toList = some root ∧ root.hasFault = false

/-- What is relied on of a parser that reads a text and the text with the declarations of a well placed plan put in.  If each
declaration outside line comments is accepted by itself then so is the new text, and its tree is the old one with these
declarations put into the blocks around them; if one is not then neither is the new text. -/
structure Rereads (parse : Parse) (d : Dialect) (stem : String) (plan : Plan) (text code : String) (root : Node) : Prop where
  accepts : Placed (Bytes.ofString text) stem root plan →
    (∀ q ∈ plan.points, isHeld (Bytes.ofString text) root q.offset.toNat = false → ∀ x ∈ q.names,
      Accepted parse d (declaration stem x)) →
    ∃ root', parse d code.toList = some root' ∧ Put (putting (Bytes.ofString text) (Bytes.ofString code) stem root plan) root root'
  refuses : Placed (Bytes.ofString text) stem root plan →
    ∀ q ∈ plan.points, isHeld (Bytes.ofString text) root q.offset.toNat = false → ∀ x ∈ q.names,
      ¬ Accepted parse d (declaration stem x) → ¬ Accepted parse d code

/-- Every tag that needs an alias has a declaration of its name outside line comments, in the body of its method or of a
component method around it. -/
def Reached (rule : Rule) (src : Bytes) (plan : Plan) (root : Node) : Prop :=
  ∀ scopes, Scopes.ofTree src root = .ok scopes → ∀ p m refs, MethodAt rule src scopes root p m refs →
    ∀ r ∈ refs, rule.qualifies r = true → r.name ∈ Component.suppliedOn (openNames src root plan) src rule.stem [] none root p.path

variable {rule : Rule} {src : Bytes} {root : Node} {file : String} {c : Collection}

/-- **Every tag is reached** if no line comment ends where declarations go. -/
theorem reached_of_open (hshaped : Shaped src root) (hc : collectSurvey rule file (Survey.ofTree src rule.stem rule.asks root) = .ok c)
    (hopen : ∀ q ∈ c.plan.points, isHeld src root q.offset.toNat = false) : Reached rule src c.plan root := by
  intro scopes hscopes p m refs hm r hr hq
  obtain ⟨body, hbody, hpoint, hname⟩ := mem_newNames_of_qualifies hscopes hc hm hr hq
  obtain ⟨q, hq⟩ := Option.isSome_iff_exists.1 hpoint
  obtain ⟨name, hmethod, -⟩ := hm.found.1
  have hnode : p.node ∈ root.preorder := Node.mem_preorder_of_mem_places hm.place
  have hkind := (hshaped.blocks p.node hnode (Component.methodName?_eq_some_iff.1 hmethod).kind body hbody).1
  refine mem_suppliedOn hm hkind hbody ?_
  rw [newNames, hq, Option.map_some, Option.getD_some] at hname
  rw [openNames, hq]
  simp only [hopen q (point_of_pointIn hq).1, Bool.false_eq_true, if_false]
  exact hname

variable {t : Transformer} {parse : Parse} {text : String} {dialect : Option String} {d : Dialect}

theorem transform_eq (hd : Dialect.resolve file t.overrides dialect = .ok d) (hroot : parse d text.toList = some root)
    (hfault : root.hasFault = false) : t.transform parse text file dialect =
      (collectSurvey t.rule file (Survey.ofTree (Bytes.ofString text) t.rule.stem t.rule.asks root)).bind (t.finish file text) := by
  unfold Transformer.transform
  rw [hd]
  simp only [bind, Except.bind, Module.read, hroot, Module.ofTree, hfault, Module.survey, Bool.false_eq_true, if_false]

theorem collected_of_transform {r : Transformed} (hd : Dialect.resolve file t.overrides dialect = .ok d)
    (hroot : parse d text.toList = some root) (hr : t.transform parse text file dialect = .ok r) :
    root.hasFault = false ∧ ∃ c,
      collectSurvey t.rule file (Survey.ofTree (Bytes.ofString text) t.rule.stem t.rule.asks root) = .ok c ∧ r.plan = c.plan := by
  obtain ⟨d', m, c, hd', hm, hc, hfinish⟩ := transform_eq_ok_iff.1 hr
  cases Except.ok.inj (hd.symm.trans hd')
  obtain ⟨root', hroot', hfault, rfl⟩ := read_eq_ok_iff.1 hm
  cases Option.some.inj (hroot.symm.trans hroot')
  obtain ⟨bytes, code, -, -, rfl⟩ := finish_eq_ok_iff.1 hfinish
  exact ⟨hfault, c, hc, rfl⟩

theorem transform_eq_self_iff (hd : Dialect.resolve file t.overrides dialect = .ok d) (hroot : parse d text.toList = some root)
    (hfault : root.hasFault = false) : t.transform parse text file dialect = .ok ⟨file, text, text, .empty, []⟩ ↔
      collectSurvey t.rule file (Survey.ofTree (Bytes.ofString text) t.rule.stem t.rule.asks root) = .ok ⟨.empty, []⟩ := by
  rw [transform_eq hd hroot hfault]
  cases collectSurvey t.rule file (Survey.ofTree (Bytes.ofString text) t.rule.stem t.rule.asks root) with
  | error f =>
    constructor
    · intro h; cases h
    · intro h; cases h
  | ok c =>
    constructor
    · intro h
      obtain ⟨bytes, code, -, -, heq⟩ := finish_eq_ok_iff.1 h
      have hplan : c.plan = .empty := (congrArg Transformed.plan heq).symm
      have hdiagnostics : c.diagnostics = [] := (congrArg Transformed.diagnostics heq).symm
      rw [← hplan, ← hdiagnostics]
    · intro h
      rw [Except.ok.inj h]
      rfl

section

variable (hstem : Text.isIdentifier t.rule.stem = true) (hd : Dialect.resolve file t.overrides dialect = .ok d)
  {r : Transformed} (hr : t.transform parse text file dialect = .ok r) (hroot : parse d text.toList = some root)
  (hshaped : Shaped (Bytes.ofString text) root) (hrereads : Rereads parse d t.rule.stem r.plan text r.code root)

include hstem hd hr hroot hshaped hrereads

/-- Where all declarations outside comments are accepted, the tree of the new text is a graft without a fault. -/
theorem exists_graft_of_accepted (hparse : parse.IsSound)
    (hnames : ∀ q ∈ r.plan.points, isHeld (Bytes.ofString text) root q.offset.toNat = false →
      ∀ x ∈ q.names, Accepted parse d (declaration t.rule.stem x)) :
    ∃ root', parse d r.code.toList = some root' ∧ root'.hasFault = false ∧
      Graft ((putting (Bytes.ofString text) (Bytes.ofString r.code) t.rule.stem root r.plan).withNames
        (openNames (Bytes.ofString text) root r.plan)) [] none root root' := by
  obtain ⟨hfault, c, hc, hplan⟩ := collected_of_transform hd hroot hr
  have hplaced : Placed (Bytes.ofString text) t.rule.stem root r.plan := hplan ▸ placed_of_collect hshaped hc hstem
  obtain ⟨root', hroot', hput⟩ := hrereads.accepts hplaced hnames
  have hlocated : ∀ m ∈ root'.preorder, ∃ at_, Position.ofOffset (Bytes.ofString r.code) m.start = .ok at_ := fun m hm =>
    (ofOffset_ok_iff (encodes_ofString r.code) m.start).2 (hparse.located d _ root' hroot' m hm).1.2
  have hgraft := graft_of_putting hshaped.nested (hplan ▸ offsets_nodup (collectSurvey_ok hc).1)
    (fun q hq => hshaped.exists_takenBy hc (hplan ▸ hq)) (hshaped.opensBodies t.rule.stem) hput hlocated
  exact ⟨root', hroot', (Graft.hasFault root' hgraft).trans hfault, hgraft⟩

/-- If the new text is accepted then so are the declarations outside comments. -/
theorem accepted_of_transform (haccepted : Accepted parse d r.code) : ∀ q ∈ r.plan.points,
    isHeld (Bytes.ofString text) root q.offset.toNat = false → ∀ x ∈ q.names, Accepted parse d (declaration t.rule.stem x) := by
  obtain ⟨-, c, hc, hplan⟩ := collected_of_transform hd hroot hr
  intro q hq hopen x hx
  by_contra hrefused
  exact hrereads.refuses (hplan ▸ placed_of_collect hshaped hc hstem) q hq hopen x hx hrefused haccepted

end

/-- **The new text is accepted exactly if no declaration outside line comments has a hyphen in its name**, where a declaration by
itself is accepted exactly if its name has none. -/
theorem accepted_transform_iff (t : Transformer) (hstem : Text.isIdentifier t.rule.stem = true) (parse : Parse)
    (hparse : parse.IsSound) (text file : String) (dialect : Option String) (d : Dialect)
    (hd : Dialect.resolve file t.overrides dialect = .ok d) (r : Transformed) (hr : t.transform parse text file dialect = .ok r)
    (root : Node) (hroot : parse d text.toList = some root) (hshaped : Shaped (Bytes.ofString text) root)
    (hrereads : Rereads parse d t.rule.stem r.plan text r.code root)
    (hnames : ∀ q ∈ r.plan.points, ∀ x ∈ q.names, Accepted parse d (declaration t.rule.stem x) ↔ '-' ∉ x.toList) :
    Accepted parse d r.code ↔ ∀ q ∈ r.plan.points, isHeld (Bytes.ofString text) root q.offset.toNat = false →
      ∀ x ∈ q.names, '-' ∉ x.toList := by
  constructor
  · intro haccepted q hq hopen x hx
    exact (hnames q hq x hx).1 (accepted_of_transform hstem hd hr hroot hshaped hrereads haccepted q hq hopen x hx)
  · intro hplain
    obtain ⟨root', hroot', hfault, -⟩ := exists_graft_of_accepted hstem hd hr hroot hshaped hrereads hparse
      (fun q hq hopen x hx => (hnames q hq x hx).2 (hplain q hq hopen x hx))
    exact ⟨root', hroot', hfault⟩

/-- **Transforming again changes nothing exactly where every tag that needs an alias is reached by a declaration**, so in
particular if no line comment ends where declarations go. -/
theorem transform_again_iff (t : Transformer) (hstem : Text.isIdentifier t.rule.stem = true) (parse : Parse)
    (hparse : parse.IsSound) (text file : String) (dialect : Option String) (d : Dialect)
    (hd : Dialect.resolve file t.overrides dialect = .ok d) (r : Transformed) (hr : t.transform parse text file dialect = .ok r)
    (root : Node) (hroot : parse d text.toList = some root) (hshaped : Shaped (Bytes.ofString text) root)
    (hrereads : Rereads parse d t.rule.stem r.plan text r.code root) (haccepted : Accepted parse d r.code) :
    (t.transform parse r.code file dialect = .ok ⟨file, r.code, r.code, .empty, []⟩ ↔
      Reached t.rule (Bytes.ofString text) r.plan root) ∧
    ((∀ q ∈ r.plan.points, isHeld (Bytes.ofString text) root q.offset.toNat = false) →
      t.transform parse r.code file dialect = .ok ⟨file, r.code, r.code, .empty, []⟩) := by
  have hiff : t.transform parse r.code file dialect = .ok ⟨file, r.code, r.code, .empty, []⟩ ↔
      Reached t.rule (Bytes.ofString text) r.plan root := by
    obtain ⟨root', hroot', hfault, hgraft⟩ := exists_graft_of_accepted hstem hd hr hroot hshaped hrereads hparse
      (accepted_of_transform hstem hd hr hroot hshaped hrereads haccepted)
    obtain ⟨-, c, hc, -⟩ := collected_of_transform hd hroot hr
    obtain ⟨scopes, hscopes⟩ := Lexical.exists_ofTree hshaped.readable
    have hplain : ∀ m ∈ root.preorder, Plain ((putting (Bytes.ofString text) (Bytes.ofString r.code) t.rule.stem root
        r.plan).withNames (openNames (Bytes.ofString text) root r.plan)) m := fun m hm =>
      ⟨hshaped.readable m hm, fun isBody k hk =>
        ⟨hshaped.leaves m hm isBody k hk, beq_eq_false_iff_ne.2 (hshaped.uncommented m hm isBody k hk)⟩⟩
    rw [transform_eq_self_iff hd hroot' hfault]
    refine Iff.trans (collect_graft_iff rfl hgraft hplain hscopes (collectSurvey_ok hc).2 file)
      ⟨fun hall s hs => ?_, fun hall => hall scopes hscopes⟩
    rw [← Except.ok.inj (hscopes.symm.trans hs)]
    exact hall
  refine ⟨hiff, fun hopen => hiff.2 ?_⟩
  obtain ⟨-, c, hc, hplan⟩ := collected_of_transform hd hroot hr
  rw [hplan] at hopen ⊢
  exact reached_of_open hshaped hc hopen

end Alias

/-! ## Parsers of some texts -/

namespace Parse

/-- The parser that reads the texts of a list, and nothing else. -/
def listed (entries : List (String × Node)) : Parse := fun _ text => entries.lookup (String.ofList text)

theorem mem_of_listed {entries : List (String × Node)} {d : Dialect} {text : List Char} {root : Node}
    (h : listed entries d text = some root) : (String.ofList text, root) ∈ entries := by
  rw [listed, List.lookup_eq_some_iff] at h
  obtain ⟨before, after, rfl, -⟩ := h
  exact List.mem_append_right _ List.mem_cons_self

theorem isSound_listed {entries : List (String × Node)}
    (hlocated : ∀ e ∈ entries, ∀ n ∈ e.2.preorder,
      (Bytes.ofString e.1).IsBoundary n.start ∧ (Bytes.ofString e.1).IsBoundary n.stop)
    (hfilled : ∀ e ∈ entries, ∀ n ∈ e.2.preorder, n.kind ∈ Component.methodKinds →
      ∀ body ∈ (n.child? "body").toList, body.children.isEmpty = false) : Parse.IsSound (listed entries) where
  located _ text root h n hn := by
    have hboundaries := hlocated _ (mem_of_listed h) n hn
    rwa [Bytes.ofString, String.toList_ofList] at hboundaries
  filled _ text root h _ n hn hkind body hbody hnil := by
    have hfull := hfilled _ (mem_of_listed h) n hn hkind body (by rw [hbody]; exact List.mem_singleton_self body)
    rw [hnil] at hfull
    cases hfull

end Parse

namespace Alias

/-- Where a tree is shaped as it should be can be checked. -/
theorem shaped_of_check {src : Bytes} {root : Node} (hnested : root.Nested) (hinside : root.stop ≤ src.length)
    (hreadable : ∀ m ∈ root.preorder, Lexical.Readable src m)
    (hreads : ∀ m ∈ root.preorder, ∀ isBody, ∀ k ∈ reads src isBody m, k.children.isEmpty = true ∧ k.kind ≠ "comment")
    (hblocks : ∀ n ∈ root.preorder, n.kind ∈ Component.methodKinds → ∀ body ∈ (n.child? "body").toList,
      n.kind = "method_definition" ∧ body.kind = "statement_block" ∧ Component.IsBraced body)
    (hnames : ∀ n ∈ root.preorder, n.kind = "identifier" → ∀ s ∈ (n.text src).toOption, OnOneLine s)
    (hlines : ∀ n ∈ root.preorder, isLineComment src n = true → Text.lineFeed ∉ src.slice n.start n.stop) : Shaped src root where
  nested := hnested
  inside := hinside
  readable := hreadable
  leaves m hm isBody k hk := List.isEmpty_iff.1 (hreads m hm isBody k hk).1
  uncommented m hm isBody k hk := (hreads m hm isBody k hk).2
  blocks n hn hkind body hbody := hblocks n hn hkind body (by rw [hbody]; exact List.mem_singleton_self body)
  names n hn hkind s hs := hnames n hn hkind s (by rw [hs]; rfl)
  lines := hlines

/-! ## A hyphenated name -/

def hyphenatedText : String := "class A \x7b render() \x7b return <Foo-bar/>; \x7d \x7d"

def hyphenatedCode : String := "class A \x7b render() \x7b const Foo-bar = this.renderFoo-bar; return <Foo-bar/>; \x7d \x7d"

def hyphenated : Node :=
  .mk ⟨"program", 0, 43, "", true, false⟩ [.mk ⟨"class_declaration", 0, 43, "", true, false⟩
    [.mk ⟨"class", 0, 5, "", false, false⟩ [],
      .mk ⟨"type_identifier", 6, 7, "name", true, false⟩ [],
      .mk ⟨"class_body", 8, 43, "body", true, false⟩
        [.mk ⟨"\x7b", 8, 9, "", false, false⟩ [],
          .mk ⟨"method_definition", 10, 41, "", true, false⟩
            [.mk ⟨"property_identifier", 10, 16, "name", true, false⟩ [],
              .mk ⟨"formal_parameters", 16, 18, "parameters", true, false⟩
                [.mk ⟨"(", 16, 17, "", false, false⟩ [], .mk ⟨")", 17, 18, "", false, false⟩ []],
              .mk ⟨"statement_block", 19, 41, "body", true, false⟩
                [.mk ⟨"\x7b", 19, 20, "", false, false⟩ [],
                  .mk ⟨"return_statement", 21, 39, "", true, false⟩
                    [.mk ⟨"return", 21, 27, "", false, false⟩ [],
                      .mk ⟨"jsx_self_closing_element", 28, 38, "", true, false⟩
                        [.mk ⟨"<", 28, 29, "", false, false⟩ [],
                          .mk ⟨"identifier", 29, 36, "name", true, false⟩ [],
                          .mk ⟨"/>", 36, 38, "", false, false⟩ []],
                      .mk ⟨";", 38, 39, "", false, false⟩ []],
                  .mk ⟨"\x7d", 40, 41, "", false, false⟩ []]],
          .mk ⟨"\x7d", 42, 43, "", false, false⟩ []]]]

def hyphenatedParse : Parse := .listed [(hyphenatedText, hyphenated)]

def hyphenatedPlan : Plan := ⟨[⟨21, ["Foo-bar"], " ", "", "render"⟩]⟩

theorem shaped_hyphenated : Shaped (Bytes.ofString hyphenatedText) hyphenated :=
  shaped_of_check (by decide) (by decide +kernel) (by decide +kernel) (by decide +kernel) (by decide +kernel) (by decide +kernel)
    (by decide +kernel)

def hyphenatedRule : Rule := ⟨"render", .aliased⟩

theorem transform_hyphenated : (⟨hyphenatedRule, []⟩ : Transformer).transform hyphenatedParse hyphenatedText "" none =
    .ok ⟨"", hyphenatedText, hyphenatedCode, hyphenatedPlan, []⟩ := by
  have hd : Dialect.resolve "" [] none = .ok .tsx := eq_ok_of_toOption (by decide +kernel)
  have hroot : hyphenatedParse .tsx hyphenatedText.toList = some hyphenated := by decide +kernel
  have hc : collectSurvey hyphenatedRule "" (Survey.ofTree (Bytes.ofString hyphenatedText) hyphenatedRule.stem
      hyphenatedRule.asks hyphenated) = .ok ⟨hyphenatedPlan, []⟩ := eq_ok_of_toOption (by decide +kernel)
  rw [transform_of_collect (t := ⟨hyphenatedRule, []⟩) hd hroot (by decide +kernel) hc]
  exact eq_ok_of_toOption (by decide +kernel)

theorem refused_hyphenated : ∀ q ∈ hyphenatedPlan.points, ∀ x ∈ q.names,
    ¬ Accepted hyphenatedParse .tsx (declaration hyphenatedRule.stem x) := by
  rintro q hq x hx ⟨root, hroot, -⟩
  rw [List.mem_singleton.1 hq, List.mem_singleton] at hx
  rw [hx, (by decide +kernel : hyphenatedParse .tsx (declaration hyphenatedRule.stem "Foo-bar").toList = none)] at hroot
  cases hroot

theorem rereads_hyphenated :
    Rereads hyphenatedParse .tsx hyphenatedRule.stem hyphenatedPlan hyphenatedText hyphenatedCode hyphenated := by
  constructor
  · intro _ haccepted
    have hpoint := haccepted _ (List.mem_singleton_self _) (by decide +kernel) "Foo-bar" (List.mem_singleton_self _)
    exact absurd hpoint (refused_hyphenated _ (List.mem_singleton_self _) _ (List.mem_singleton_self _))
  · rintro - q hq - x hx - ⟨root, hroot, -⟩
    rw [(by decide +kernel : hyphenatedParse .tsx hyphenatedCode.toList = none)] at hroot
    cases hroot

/-- A class is read, but what is made of it is not. -/
theorem accepted_transform_hyphenated :
    (⟨hyphenatedRule, []⟩ : Transformer).transform hyphenatedParse hyphenatedText "" none =
      .ok ⟨"", hyphenatedText, hyphenatedCode, hyphenatedPlan, []⟩ ∧
    Accepted hyphenatedParse .tsx hyphenatedText ∧
    ¬ Accepted hyphenatedParse .tsx hyphenatedCode := by
  have hd : Dialect.resolve "" [] none = .ok .tsx := eq_ok_of_toOption (by decide +kernel)
  have hroot : hyphenatedParse .tsx hyphenatedText.toList = some hyphenated := by decide +kernel
  have hiff := accepted_transform_iff ⟨hyphenatedRule, []⟩ (by decide) hyphenatedParse
    (Parse.isSound_listed (by decide +kernel) (by decide +kernel)) hyphenatedText "" none .tsx hd _ transform_hyphenated
    hyphenated hroot shaped_hyphenated rereads_hyphenated (fun q hq x hx => by
      have hhyphen : '-' ∈ x.toList := by
        rw [List.mem_singleton.1 hq, List.mem_singleton] at hx
        rw [hx]
        decide
      exact iff_of_false (refused_hyphenated q hq x hx) (fun hnot => hnot hhyphen))
  refine ⟨transform_hyphenated, ⟨hyphenated, hroot, by decide +kernel⟩, fun haccepted => ?_⟩
  exact hiff.1 haccepted _ (List.mem_singleton_self _) (by decide +kernel) "Foo-bar" (List.mem_singleton_self _) (by decide)

/-! ## A declaration in a line comment -/

mutual

/-- Whether the second tree is the first but for offsets, with nothing put in. -/
def isSame (g : Change) : Node → Node → Bool
  | .mk l cs, .mk l' cs' =>
    l' == { l with start := l'.start, stop := l'.stop }
      && (!cs.isEmpty || g.loose l || g.after.slice l'.start l'.stop == g.before.slice l.start l.stop)
      && (g.names (.mk l cs)).isEmpty && isSameIn g cs cs'

def isSameIn (g : Change) : List Node → List Node → Bool
  | [], [] => true
  | c :: cs, c' :: cs' => isSame g c c' && isSameIn g cs cs'
  | _, _ => false

end

mutual

theorem put_of_isSame (g : Change) : ∀ (n : Node) {n' : Node}, isSame g n n' = true → Put g n n'
  | .mk l cs, .mk l' cs', h => by
    rw [isSame, Bool.and_eq_true, Bool.and_eq_true, Bool.and_eq_true, beq_iff_eq] at h
    obtain ⟨⟨⟨halike, hleaf⟩, hnames⟩, hbelow⟩ := h
    refine .mk ?_ ?_ ?_
    · rw [halike]
      exact ⟨rfl, rfl, rfl, rfl⟩
    · rintro rfl hfast
      have hslice : g.after.slice l'.start l'.stop = g.before.slice l.start l.stop := by simpa [hfast] using hleaf
      exact congrArg Bytes.toString? hslice
    · rw [List.isEmpty_iff.1 hnames]
      exact putIn_of_isSameIn g cs hbelow

theorem putIn_of_isSameIn (g : Change) : ∀ (cs : List Node) {cs' : List Node}, isSameIn g cs cs' = true → PutIn g [] cs cs'
  | [], [], _ => .nil
  | [], _ :: _, h => by simp [isSameIn] at h
  | _ :: _, [], h => by simp [isSameIn] at h
  | c :: cs, c' :: cs', h => by
    rw [isSameIn, Bool.and_eq_true] at h
    exact .keep (put_of_isSame g c h.1) (putIn_of_isSameIn g cs h.2)

end

def commentedText : String := "class A \x7b render(x = <Card/>) \x7b 'a' // c\n \x7d \x7d"

def commentedCode : String := "class A \x7b render(x = <Card/>) \x7b 'a' // c; const Card = this.renderCard; \n \x7d \x7d"

/-- The tree of the text, where the directive with the comment in it stops at an offset. -/
def commented (stop : Nat) : Node :=
  .mk ⟨"program", 0, stop + 5, "", true, false⟩ [.mk ⟨"class_declaration", 0, stop + 5, "", true, false⟩
    [.mk ⟨"class", 0, 5, "", false, false⟩ [],
      .mk ⟨"type_identifier", 6, 7, "name", true, false⟩ [],
      .mk ⟨"class_body", 8, stop + 5, "body", true, false⟩
        [.mk ⟨"\x7b", 8, 9, "", false, false⟩ [],
          .mk ⟨"method_definition", 10, stop + 3, "", true, false⟩
            [.mk ⟨"property_identifier", 10, 16, "name", true, false⟩ [],
              .mk ⟨"formal_parameters", 16, 29, "parameters", true, false⟩
                [.mk ⟨"(", 16, 17, "", false, false⟩ [],
                  .mk ⟨"required_parameter", 17, 28, "", true, false⟩
                    [.mk ⟨"identifier", 17, 18, "pattern", true, false⟩ [],
                      .mk ⟨"=", 19, 20, "", false, false⟩ [],
                      .mk ⟨"jsx_self_closing_element", 21, 28, "value", true, false⟩
                        [.mk ⟨"<", 21, 22, "", false, false⟩ [],
                          .mk ⟨"identifier", 22, 26, "name", true, false⟩ [],
                          .mk ⟨"/>", 26, 28, "", false, false⟩ []]],
                  .mk ⟨")", 28, 29, "", false, false⟩ []],
              .mk ⟨"statement_block", 30, stop + 3, "body", true, false⟩
                [.mk ⟨"\x7b", 30, 31, "", false, false⟩ [],
                  .mk ⟨"expression_statement", 32, stop, "", true, false⟩
                    [.mk ⟨"string", 32, 35, "", true, false⟩
                      [.mk ⟨"'", 32, 33, "", false, false⟩ [],
                        .mk ⟨"string_fragment", 33, 34, "", true, false⟩ [],
                        .mk ⟨"'", 34, 35, "", false, false⟩ []],
                      .mk ⟨"comment", 36, stop, "", true, false⟩ []],
                  .mk ⟨"\x7d", stop + 2, stop + 3, "", false, false⟩ []]],
          .mk ⟨"\x7d", stop + 4, stop + 5, "", false, false⟩ []]]]

def commentedParse : Parse := .listed [(commentedText, commented 40), (commentedCode, commented 72)]

def commentedPlan : Plan := ⟨[⟨40, ["Card"], " ", "; ", "render"⟩]⟩

def commentedReference : TagReference := ⟨"Card", false, 1, 23, false⟩

theorem shaped_commented : Shaped (Bytes.ofString commentedText) (commented 40) :=
  shaped_of_check (by decide) (by decide +kernel) (by decide +kernel) (by decide +kernel) (by decide +kernel) (by decide +kernel)
    (by decide +kernel)

theorem rereads_commented : Rereads commentedParse .tsx cardRule.stem commentedPlan commentedText commentedCode (commented 40) := by
  constructor
  · intro _ _
    exact ⟨commented 72, by decide +kernel, put_of_isSame _ _ (by decide +kernel)⟩
  · intro _ q hq hopen
    have hheld : ∀ q ∈ commentedPlan.points, isHeld (Bytes.ofString commentedText) (commented 40) q.offset.toNat = true := by
      decide +kernel
    rw [hheld q hq] at hopen
    cases hopen

theorem transform_commented : (⟨cardRule, []⟩ : Transformer).transform commentedParse commentedText "" none =
    .ok ⟨"", commentedText, commentedCode, commentedPlan, []⟩ := by
  have hd : Dialect.resolve "" [] none = .ok .tsx := eq_ok_of_toOption (by decide +kernel)
  have hroot : commentedParse .tsx commentedText.toList = some (commented 40) := by decide +kernel
  have hc : collectSurvey cardRule "" (Survey.ofTree (Bytes.ofString commentedText) cardRule.stem cardRule.asks (commented 40)) =
      .ok ⟨commentedPlan, []⟩ := eq_ok_of_toOption (by decide +kernel)
  rw [transform_of_collect (t := ⟨cardRule, []⟩) hd hroot (by decide +kernel) hc]
  exact eq_ok_of_toOption (by decide +kernel)

/-- The only declaration stands in a comment, so it supplies no node. -/
theorem not_reached_commented : ¬ Reached cardRule (Bytes.ofString commentedText) commentedPlan (commented 40) := by
  intro hreached
  obtain ⟨scopes, hscopes⟩ := Lexical.exists_ofTree shaped_commented.readable
  have hfault : (Survey.ofTree (Bytes.ofString commentedText) cardRule.stem cardRule.asks (commented 40)).fault = none := by
    decide +kernel
  have hmem : (⟨"render", some 40, true, "; ", " ", 1, 11⟩, [commentedReference]) ∈
      (Survey.ofTree (Bytes.ofString commentedText) cardRule.stem cardRule.asks (commented 40)).methods := by decide +kernel
  obtain ⟨p, hm⟩ := (mem_methods_iff hscopes hfault _ _).1 hmem
  have hin := hreached scopes hscopes p _ [commentedReference] hm commentedReference (List.mem_singleton_self _) (by decide +kernel)
  have hnone : ∀ p ∈ (commented 40).places none [], Component.suppliedOn
      (openNames (Bytes.ofString commentedText) (commented 40) commentedPlan) (Bytes.ofString commentedText) cardRule.stem [] none
      (commented 40) p.path = [] := by decide +kernel
  rw [hnone p hm.place] at hin
  cases hin

/-- The tag is not reached, so the transformed text is not left as it is. -/
theorem transform_again_commented :
    (⟨cardRule, []⟩ : Transformer).transform commentedParse commentedText "" none =
      .ok ⟨"", commentedText, commentedCode, commentedPlan, []⟩ ∧
    (⟨cardRule, []⟩ : Transformer).transform commentedParse commentedCode "" none ≠
      .ok ⟨"", commentedCode, commentedCode, .empty, []⟩ := by
  have hd : Dialect.resolve "" [] none = .ok .tsx := eq_ok_of_toOption (by decide +kernel)
  have hroot : commentedParse .tsx commentedText.toList = some (commented 40) := by decide +kernel
  have haccepted : Accepted commentedParse .tsx commentedCode := ⟨commented 72, by decide +kernel, by decide +kernel⟩
  have hiff := (transform_again_iff ⟨cardRule, []⟩ (by decide) commentedParse
    (Parse.isSound_listed (by decide +kernel) (by decide +kernel)) commentedText "" none .tsx hd _ transform_commented
    (commented 40) hroot shaped_commented rereads_commented haccepted).1
  exact ⟨transform_commented, fun hagain => not_reached_commented (hiff.1 hagain)⟩

end Alias
end TagAlias
