import TagAlias.Message.Bus
import TagAlias.Proofs.Message.Filled
import TagAlias.Proofs.Message.Lookup
/-!
# What sending a message comes to

A bus with somebody who listens delivers one text for a message: the template with its fields filled or, where the first thing
that cannot be filled is a parameter that is not there, a text that tells of the fault.  Whatever else stops the template, a
refused lookup or a parameter with a reserved name refuses the message, and then nothing is delivered (`emit_settled`).
-/
namespace TagAlias

open Template (Fills Stops)

namespace Message

variable {α : Type} [Template.Object α] {level : Level} {id : Str} {params : Template.Params α} {template : Str}

theorem textFrom_of_fills {text : Str} (h : Fills params 1 template text) :
    (of level id params).textFrom template = .ok text := by
  simp [textFrom, of, Template.fill_eq_ok_iff.2 h]

theorem textFrom_of_missing (h : Stops params 1 template .missing) :
    (of level id params).textFrom template = .ok (faultText id) := by
  simp [textFrom, of, Template.fill_eq_error_iff.2 h]

theorem exists_refusal (level : Level) (id : Str) {e : TemplateFault} (h : Stops params 1 template e) (hne : e ≠ .missing) :
    ∃ r, (of level id params).textFrom template = .error r := by
  cases e with
  | missing => exact absurd rfl hne
  | refused c => exact ⟨c, by simp [textFrom, of, Template.fill_eq_error_iff.2 h]⟩

/-- A template is filled, or something stops it. -/
theorem fills_or_stops (params : Template.Params α) (template : Str) :
    (∃ text : Str, Fills params 1 template text) ∨ ∃ e, Stops params 1 template e := by
  cases h : Template.fill params template with
  | ok text => exact .inl ⟨text, Template.fill_eq_ok_iff.1 h⟩
  | error e => exact .inr ⟨e, Template.fill_eq_error_iff.1 h⟩

end Message

namespace Bus

variable {α : Type} [Template.Object α] {b : Bus α} {fs : Files} {level : Level} {id : Str} {params : Template.Params α}

def IsReserved (params : Template.Params α) : Prop := ∃ p ∈ params, p.1 ∈ reservedNames

omit [Template.Object α] in
theorem any_reserved_iff : params.any (fun p => reservedNames.contains p.1) = true ↔ IsReserved params := by
  simp [IsReserved]

theorem emit_of_reserved (h : IsReserved params) : b.emit fs level id params = (b, .error .wrongKind) := by
  rw [emit, if_pos (any_reserved_iff.2 h)]

theorem emit_of_not_reserved (h : ¬ IsReserved params) : b.emit fs level id params = b.send fs (.of level id params) := by
  rw [emit, if_neg (fun hany => h (any_reserved_iff.1 hany))]

/-! ## Sending -/

section

variable (hreceiver : b.receiver = .texts) (fs : Files) (m : Message α)

include hreceiver

/-- What is sent is what comes of the lookup and of the text from the template that it finds. -/
theorem send_eq : ((b.send fs m).1.deliveries, (b.send fs m).2) =
    match (b.catalog.get fs m.id none).2.bind m.textFrom with
    | .ok text => (b.deliveries ++ [⟨m.level, text⟩], .ok ())
    | .error e => (b.deliveries, .error e) := by
  unfold send
  rw [hreceiver]
  obtain ⟨c, r⟩ := b.catalog.get fs m.id none
  cases r with
  | error e => rfl
  | ok template =>
    dsimp only [Except.bind]
    cases m.textFrom template <;> rfl

theorem send_of_ok {text : Str} (h : (b.catalog.get fs m.id none).2.bind m.textFrom = .ok text) :
    (b.send fs m).1.deliveries = b.deliveries ++ [⟨m.level, text⟩] ∧ (b.send fs m).2 = .ok () := by
  have heq := send_eq hreceiver fs m
  rw [h] at heq
  exact Prod.mk.inj heq

theorem send_of_error {e : Refusal} (h : (b.catalog.get fs m.id none).2.bind m.textFrom = .error e) :
    (b.send fs m).1.deliveries = b.deliveries ∧ (b.send fs m).2 = .error e := by
  have heq := send_eq hreceiver fs m
  rw [h] at heq
  exact Prod.mk.inj heq

end

/-- What keeps a message from being delivered. -/
inductive Refuses (b : Bus α) (fs : Files) (id : Str) (params : Template.Params α) : Prop
  | reserved (h : IsReserved params)
  /-- The template cannot be looked up. -/
  | lookup {e : Refusal} (h : (b.catalog.get fs id none).2 = .error e)
  /-- What stops the template is no parameter that is not there. -/
  | template {template : Str} {e : TemplateFault} (h : (b.catalog.get fs id none).2 = .ok template)
      (hstops : Stops params 1 template e) (hne : e ≠ .missing)

/-- The text that is delivered for a message. -/
inductive Delivers (b : Bus α) (fs : Files) (id : Str) (params : Template.Params α) : Str → Prop
  | filled {template text : Str} (h : (b.catalog.get fs id none).2 = .ok template)
      (hfills : Fills params 1 template text) : Delivers b fs id params text
  | missing {template : Str} (h : (b.catalog.get fs id none).2 = .ok template)
      (hstops : Stops params 1 template .missing) : Delivers b fs id params (Message.faultText id)

theorem refuses_or_delivers (b : Bus α) (fs : Files) (id : Str) (params : Template.Params α) :
    b.Refuses fs id params ∨ ¬ IsReserved params ∧ ∃ text, b.Delivers fs id params text := by
  by_cases hreserved : IsReserved params
  · exact .inl (.reserved hreserved)
  · cases hget : (b.catalog.get fs id none).2 with
    | error e => exact .inl (.lookup hget)
    | ok template =>
      rcases Message.fills_or_stops params template with ⟨text, hfills⟩ | ⟨e, hstops⟩
      · exact .inr ⟨hreserved, text, .filled hget hfills⟩
      · by_cases hmissing : e = .missing
        · subst hmissing
          exact .inr ⟨hreserved, _, .missing hget hstops⟩
        · exact .inl (.template hget hstops hmissing)

/-- **Where all fields of a template are mere names, only its lookup or a reserved name refuses a message.** -/
theorem not_refuses_of_plain (hreserved : ¬ IsReserved params) {template : Str} {ps : List Template.Piece}
    (hget : (b.catalog.get fs id none).2 = .ok template) (hsplits : Template.Splits template ps [])
    (hplain : ∀ f, Template.Piece.field f ∈ ps → f.IsPlain)
    (hshown : ∀ x ∈ params, ∃ text, Template.Object.lay x.2 [] = .ok text) :
    ¬ b.Refuses fs id params := by
  intro h
  cases h with
  | reserved h => exact hreserved h
  | lookup h =>
    rw [hget] at h
    cases h
  | template h hstops hne =>
    rw [hget] at h
    cases h
    exact hne (Template.stops_of_plain hsplits hplain hshown hstops)

section

variable (hreceiver : b.receiver = .texts)

include hreceiver

theorem emit_of_refuses (level : Level) (h : b.Refuses fs id params) :
    (b.emit fs level id params).1.deliveries = b.deliveries ∧ ∃ e, (b.emit fs level id params).2 = .error e := by
  by_cases hreserved : IsReserved params
  · rw [emit_of_reserved hreserved]
    exact ⟨rfl, _, rfl⟩
  · rw [emit_of_not_reserved hreserved]
    obtain ⟨e, he⟩ : ∃ e, (b.catalog.get fs id none).2.bind (Message.of level id params).textFrom = .error e := by
      cases h with
      | reserved h => exact absurd h hreserved
      | lookup h => exact ⟨_, by rw [h]; rfl⟩
      | template h hstops hne =>
        obtain ⟨r, hr⟩ := Message.exists_refusal level id hstops hne
        exact ⟨r, by rw [h]; exact hr⟩
    obtain ⟨hsame, herror⟩ := send_of_error hreceiver fs (.of level id params) he
    exact ⟨hsame, e, herror⟩

theorem emit_of_delivers (level : Level) (hreserved : ¬ IsReserved params) {text : Str} (h : b.Delivers fs id params text) :
    (b.emit fs level id params).1.deliveries = b.deliveries ++ [⟨level, text⟩] ∧
      (b.emit fs level id params).2 = .ok () := by
  rw [emit_of_not_reserved hreserved]
  refine send_of_ok hreceiver fs (.of level id params) ?_
  change (b.catalog.get fs id none).2.bind _ = _
  cases h with
  | filled h hfills => rw [h]; exact Message.textFrom_of_fills hfills
  | missing h hstops => rw [h]; exact Message.textFrom_of_missing hstops

/-- **What sending a message comes to.**  A message is refused exactly if a parameter has a reserved name, its template cannot be
looked up, or the template is stopped by something else than a parameter, or an item of one, that is not there.  Nothing is
delivered then.  Otherwise one text is delivered at the level of the message: the template with all its pieces filled, or a
text that tells of the fault. -/
theorem emit_settled (fs : Files) (level : Level) (id : Str) (params : Template.Params α) :
    ((∃ e, (b.emit fs level id params).2 = .error e) ↔ b.Refuses fs id params) ∧
    (b.Refuses fs id params → (b.emit fs level id params).1.deliveries = b.deliveries) ∧
    (¬ b.Refuses fs id params → (b.emit fs level id params).2 = .ok () ∧
      ∃ text, b.Delivers fs id params text ∧
        (b.emit fs level id params).1.deliveries = b.deliveries ++ [⟨level, text⟩]) := by
  refine ⟨⟨?_, fun h => (emit_of_refuses hreceiver level h).2⟩, fun h => (emit_of_refuses hreceiver level h).1, ?_⟩
  · rintro ⟨e, he⟩
    rcases b.refuses_or_delivers fs id params with h | ⟨hreserved, text, h⟩
    · exact h
    · rw [(emit_of_delivers hreceiver level hreserved h).2] at he
      cases he
  · intro hnot
    rcases b.refuses_or_delivers fs id params with h | ⟨hreserved, text, h⟩
    · exact absurd h hnot
    · obtain ⟨hdelivered, hok⟩ := emit_of_delivers hreceiver level hreserved h
      exact ⟨hok, text, h, hdelivered⟩

end

/-- A root with a text in which a brace opens and does not close. -/
def openBrace : Files :=
  ⟨[(["r"], .directory), (["r", "en"], .directory),
    (["r", "en", "a.json"], .file (Bytes.ofString "\x7b\"greeting\": \"Hello \x7b\"\x7d"))]⟩

theorem load_openBrace : Catalog.oneRoot.load openBrace "en" = .ok [("greeting", "Hello \x7b")] := by
  have hlocate : openBrace.locate (.fromRoot ["r"] ++ Path.ofString "en") = .ok ["r", "en"] := rfl
  have hdirectory : openBrace.isDirectory (.fromRoot ["r"] ++ Path.ofString "en") = true := by decide +kernel
  have hin : openBrace.namesIn ["r", "en"] = ["a.json"] := by decide +kernel
  have hnames : Catalog.fileNames openBrace (.fromRoot ["r"] ++ Path.ofString "en") = ["a.json"] := by
    rw [Catalog.fileNames, if_pos hdirectory, Files.list, hlocate]
    dsimp only
    rw [hin, List.mergeSort_singleton]
    decide +kernel
  have hsome : (Catalog.readFile openBrace (.fromRoot ["r"] ++ Path.ofString "en") "a.json").toOption =
      some [(Str.ofString "greeting", Str.ofString "Hello \x7b")] := by decide +kernel
  have hread : Catalog.readFile openBrace (.fromRoot ["r"] ++ Path.ofString "en") "a.json" =
      .ok [("greeting", "Hello \x7b")] := by
    revert hsome
    cases Catalog.readFile openBrace (.fromRoot ["r"] ++ Path.ofString "en") "a.json" with
    | error e => intro h; cases h
    | ok ts => intro h; exact congrArg Except.ok (Option.some.inj h)
  simp only [Catalog.load, Catalog.oneRoot, Catalog.of, List.reverse_singleton, List.foldlM_cons, List.foldlM_nil,
    Catalog.rootTexts_directory (Catalog.languageDir_ofString _ _), hnames, hread]
  rfl

/-- The brace refuses the message. -/
theorem emit_settled_openBrace : (Bus.of Catalog.oneRoot .texts : Bus Argument).receiver = .texts ∧
    (Catalog.oneRoot.get openBrace "greeting" none).2 = .ok (Str.ofString "Hello \x7b") ∧
    ∃ e, ((Bus.of Catalog.oneRoot .texts).emit openBrace .info "greeting" [("name", Argument.text "x")]).2 = .error e := by
  have hget : (Catalog.oneRoot.get openBrace "greeting" none).2 = .ok (Str.ofString "Hello \x7b") := by
    rw [(Catalog.get_of_reads (.of_new rfl) "greeting" none).2, Catalog.lookupAnew]
    have htarget : Catalog.oneRoot.target none = Str.ofString "en" := rfl
    rw [htarget, load_openBrace]
    rfl
  have hstops : Stops [(Str.ofString "name", Argument.text "x")] 1 (Str.ofString "Hello " ++ [.char '\x7b'])
      Template.malformed :=
    Template.stops_of_text (by decide) (by simp) (Template.unreadable_iff.2 rfl)
  exact ⟨rfl, hget, (emit_settled (b := .of Catalog.oneRoot .texts) rfl openBrace .info "greeting" _).1.2
    (.template hget hstops (by decide))⟩

end Bus
end TagAlias
