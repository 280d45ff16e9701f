import Mathlib
import TagAlias.Proofs.Config.Accepted
import TagAlias.Proofs.Text.Utf8
/-!
# How loading a configuration ends

A configuration that is loaded is valid, and a fault in the project file is told.  But for links that lead in a circle,
loading is refused in just these cases: the file is not text, it has an integer of too many digits, a value stands where
one of the two outer tables should, or a setting that has to be shown holds an integer of too many digits
(`loadConfig_ends`).
-/
namespace TagAlias

/-- A fault that cannot be told, because what is at fault cannot be shown. -/
def ConfigFault.Unshown (f : ConfigFault) : Prop := f = .unshown ∨ ∃ v, f.given? = some v ∧ v.isShown = false

namespace ConfigFault

theorem failure_of_unshown {f : ConfigFault} (h : f.Unshown) : f.failure = .refused .malformedNumber := by
  rcases h with rfl | ⟨v, hv, hshown⟩
  · rfl
  · cases f <;> simp_all [failure, given?]

theorem failure_of_shown {f : ConfigFault} (hnone : f ≠ .noTable) (h : ¬ f.Unshown) : f.failure = .config f.message := by
  have hshown : ∀ v, f.given? = some v → v.isShown = true := by
    intro v hv
    cases hs : v.isShown with
    | true => rfl
    | false => exact absurd (.inr ⟨v, hv, hs⟩) h
  have hne : f ≠ .unshown := fun heq => h (.inl heq)
  cases f <;> simp_all [failure, given?]

end ConfigFault

namespace Config

theorem read_ne_noTable (given : Option Value) : readStem given ≠ .error .noTable ∧
    readScanPaths given ≠ .error .noTable ∧ readPolicy given ≠ .error .noTable ∧
    readOutDir given ≠ .error .noTable ∧ readJobs given ≠ .error .noTable := by
  unfold readStem readScanPaths readPolicy readOutDir readJobs
  refine ⟨?_, ?_, ?_, ?_, ?_⟩ <;> (repeat' split) <;> simp

theorem readExtensions_ne_noTable (given : Option Value) : readExtensions given ≠ .error .noTable := by
  unfold readExtensions
  split
  · simp
  · next es =>
    generalize ([] : List (String × Dialect)) = known
    induction es generalizing known with
    | nil => simp [pure, Except.pure]
    | cons e es ih =>
      rw [List.foldlM_cons]
      cases hnext : readExtension known e with
      | ok next => exact ih next
      | error f =>
        unfold readExtension at hnext
        split at hnext <;> cases hnext
        simp [bind, Except.bind]
  · simp

theorem bind_ne_error {α β : Type} {x : Except ConfigFault α} {k : α → Except ConfigFault β} {f : ConfigFault}
    (hx : x ≠ .error f) (hk : ∀ a, k a ≠ .error f) : x >>= k ≠ .error f := by
  cases x with
  | error e => exact fun h => hx (congrArg _ (Except.error.inj h))
  | ok a => exact hk a

/-- **Only what is no table is not taken as one.** -/
theorem ofValue_table_ne_noTable (es : List (String × Value)) : ofValue (.table es) ≠ .error .noTable := by
  unfold ofValue
  refine bind_ne_error (read_ne_noTable _).1 (fun stem => ?_)
  refine bind_ne_error (read_ne_noTable _).2.1 (fun scanPaths => ?_)
  refine bind_ne_error (readExtensions_ne_noTable _) (fun extensions => ?_)
  refine bind_ne_error (read_ne_noTable _).2.2.1 (fun policy => ?_)
  refine bind_ne_error (read_ne_noTable _).2.2.2.1 (fun outDir => ?_)
  refine bind_ne_error (read_ne_noTable _).2.2.2.2 (fun jobs => ?_)
  exact fun h => by cases h

theorem ofValue_noTable {v : Value} (h : ∀ es, v ≠ .table es) : ofValue v = .error .noTable := by
  cases v with
  | table es => exact absurd rfl (h es)
  | _ => rfl

theorem valid_standard : standard.Valid := ⟨by decide +kernel, by decide, by decide⟩

end Config

namespace Project

/-- Why a configuration is refused, without a fault that is told, from what its file holds. -/
inductive Untold (content : Bytes) : Refusal → Prop where
  | undecodable {f : Utf8.Fault} (h : Utf8.decode content = .error f) : Untold content (.undecodable f)
  | tooLong {cs : List Char} {message : String} (hcs : Utf8.decode content = .ok cs)
      (h : Toml.read cs = .error (.tooLong, message)) : Untold content .malformedNumber
  | noTool {cs : List Char} {es : List (String × Value)} {v : Value} (hcs : Utf8.decode content = .ok cs)
      (hread : Toml.read cs = .ok (.table es)) (htool : es.lookup "tool" = some v) (h : ∀ ts, v ≠ .table ts) :
      Untold content .noSuchPart
  | noSettings {cs : List Char} {es ts : List (String × Value)} {v : Value} (hcs : Utf8.decode content = .ok cs)
      (hread : Toml.read cs = .ok (.table es)) (htool : es.lookup "tool" = some (.table ts))
      (hown : ts.lookup "innerbind" = some v) (h : ∀ own, v ≠ .table own) : Untold content .noSuchPart
  | unshown {cs : List Char} {es ts own : List (String × Value)} {f : ConfigFault} (hcs : Utf8.decode content = .ok cs)
      (hread : Toml.read cs = .ok (.table es)) (htool : es.lookup "tool" = some (.table ts))
      (hown : ts.lookup "innerbind" = some (.table own)) (hfault : Config.ofValue (.table own) = .error f)
      (h : f.Unshown) : Untold content .malformedNumber

theorem Untold.undecodable_or_text {content : Bytes} {e : Refusal} (h : Untold content e) :
    (∃ f, Utf8.decode content = .error f ∧ e = .undecodable f) ∨ ∃ cs, Utf8.decode content = .ok cs := by
  cases h with
  | undecodable h => exact .inl ⟨_, h, rfl⟩
  | tooLong hcs | noTool hcs | noSettings hcs | unshown hcs => exact .inr ⟨_, hcs⟩

/-- A document is a table. -/
theorem read_table {cs : List Char} {v : Value} (h : Toml.read cs = .ok v) : ∃ es, v = .table es := by
  unfold Toml.read Toml.readUnified at h
  cases hd : Toml.statements ((Toml.unifyLineEnds cs).length + 2) ⟨[], [], [], []⟩ (Toml.unifyLineEnds cs) with
  | error f => rw [hd] at h; cases h
  | ok d => rw [hd] at h; exact ⟨d.entries, (Except.ok.inj h).symm⟩

theorem exists_of_isFile {fs : Files} {p : Path} (h : fs.isFile p = true) : ∃ content, fs.read p = .ok content := by
  unfold Files.isFile at h
  unfold Files.read
  split at h
  · next content hfind => exact ⟨content, by rw [hfind]⟩
  · cases h

/-- What settings come to that are found in a document. -/
def settle (own : Value) : Except Failure Config := (Config.ofValue own).mapError ConfigFault.failure

theorem configOf_of_read (path : Path) {cs : List Char} {es : List (String × Value)} (h : Toml.read cs = .ok (.table es)) :
    configOf path cs = match es.lookup "tool" with
      | none => .ok .standard
      | some (.table ts) => settle ((ts.lookup "innerbind").getD (.table []))
      | some _ => .error (.refused .noSuchPart) := by
  unfold configOf
  rw [h]
  dsimp only [tableIn, Except.mapError]
  cases es.lookup "tool" with
  | none => rfl
  | some tool => cases tool <;> rfl

theorem settle_table (own : List (String × Value)) :
    (∃ c, settle (.table own) = .ok c ∧ c.Valid) ∨ (∃ f, settle (.table own) = .error f ∧ f.isConfig = true) ∨
      ∃ f, Config.ofValue (.table own) = .error f ∧ f.Unshown := by
  unfold settle
  cases h : Config.ofValue (.table own) with
  | ok c => exact .inl ⟨c, rfl, Config.valid_of_ofValue h⟩
  | error f =>
    have hnone : f ≠ .noTable := fun heq => Config.ofValue_table_ne_noTable own (heq ▸ h)
    by_cases hf : f.Unshown
    · exact .inr (.inr ⟨f, rfl, hf⟩)
    · exact .inr (.inl ⟨_, congrArg _ (ConfigFault.failure_of_shown hnone hf), rfl⟩)

theorem refused_of_untold {path : Path} {content : Bytes} {cs : List Char} {e : Refusal}
    (hcs : Utf8.decode content = .ok cs) (h : Untold content e) : configOf path cs = .error (.refused e) := by
  cases h with
  | undecodable h => rw [hcs] at h; cases h
  | tooLong hcs' h =>
    rw [hcs, Except.ok.injEq] at hcs'
    rw [configOf, hcs', h]
  | noTool hcs' hread htool h =>
    rw [hcs, Except.ok.injEq] at hcs'
    rw [configOf_of_read _ (hcs' ▸ hread), htool]
    split
    · next heq => cases heq
    · next heq => exact absurd (Option.some.inj heq) (h _)
    · rfl
  | noSettings hcs' hread htool hown h =>
    rw [hcs, Except.ok.injEq] at hcs'
    rw [configOf_of_read _ (hcs' ▸ hread), htool]
    dsimp only
    rw [hown, Option.getD_some, settle, Config.ofValue_noTable h]
    rfl
  | unshown hcs' hread htool hown hfault h =>
    rw [hcs, Except.ok.injEq] at hcs'
    rw [configOf_of_read _ (hcs' ▸ hread), htool]
    dsimp only
    rw [hown, Option.getD_some, settle, hfault]
    exact congrArg _ (ConfigFault.failure_of_unshown h)

/-- The text of a project file gives a valid configuration, a fault that is told, or a reason why it is not told. -/
theorem configOf_ends (path : Path) {content : Bytes} {cs : List Char} (hcs : Utf8.decode content = .ok cs) :
    (∃ c, configOf path cs = .ok c ∧ c.Valid) ∨ (∃ f, configOf path cs = .error f ∧ f.isConfig = true) ∨
      ∃ e, Untold content e := by
  cases hread : Toml.read cs with
  | error fault =>
    obtain ⟨cause, message⟩ := fault
    by_cases hcause : cause = .tooLong
    · subst hcause
      exact .inr (.inr ⟨_, .tooLong hcs hread⟩)
    · refine .inr (.inl ⟨.configFile path message, ?_, rfl⟩)
      unfold configOf
      rw [hread]
      cases cause <;> first | rfl | exact absurd rfl hcause
  | ok v =>
    obtain ⟨es, rfl⟩ := read_table hread
    have hconfig := configOf_of_read path hread
    cases htool : es.lookup "tool" with
    | none =>
      rw [htool] at hconfig
      exact .inl ⟨_, hconfig, Config.valid_standard⟩
    | some tool =>
      rw [htool] at hconfig
      by_cases hts : ∃ ts, tool = .table ts
      · obtain ⟨ts, rfl⟩ := hts
        dsimp only at hconfig
        cases hown : ts.lookup "innerbind" with
        | none =>
          rw [hown] at hconfig
          exact .inl ⟨_, hconfig, Config.valid_standard⟩
        | some own =>
          rw [hown, Option.getD_some] at hconfig
          by_cases htable : ∃ settings, own = .table settings
          · obtain ⟨settings, rfl⟩ := htable
            rw [hconfig]
            rcases settle_table settings with hok | htold | ⟨f, hfault, hf⟩
            · exact .inl hok
            · exact .inr (.inl htold)
            · exact .inr (.inr ⟨_, .unshown hcs hread htool hown hfault hf⟩)
          · exact .inr (.inr ⟨_, .noSettings hcs hread htool hown (fun ts heq => htable ⟨ts, heq⟩)⟩)
      · exact .inr (.inr ⟨_, .noTool hcs hread htool (fun ts heq => hts ⟨ts, heq⟩)⟩)

theorem loadConfig_of_read {fs : Files} {start dir path : Path} {content : Bytes} (hdir : fs.resolve start = .ok dir)
    (hpath : file? fs dir = some path) (hread : fs.read path = .ok content) :
    loadConfig fs start = (Utf8.decode content).mapError (.refused ∘ .undecodable) >>= configOf path := by
  unfold loadConfig resolve
  rw [hdir]
  dsimp only [Except.mapError, bind, Except.bind]
  rw [hpath]
  dsimp only
  rw [hread]

/-- Why loading a configuration is refused, without a fault that is told: the way there leads in a circle, or for what the
nearest project file holds. -/
def Refuses (fs : Files) (start : Path) (e : Refusal) : Prop :=
  ((∃ fault, fs.resolve start = .error fault) ∧ e = .linkLoop) ∨
    ∃ dir path content, fs.resolve start = .ok dir ∧ file? fs dir = some path ∧ fs.read path = .ok content ∧
      Untold content e

theorem loadConfig_of_refuses {fs : Files} {start : Path} {e : Refusal} (h : Refuses fs start e) :
    loadConfig fs start = .error (.refused e) := by
  rcases h with ⟨⟨fault, hloop⟩, rfl⟩ | ⟨dir, path, content, hdir, hpath, hread, huntold⟩
  · rw [loadConfig, resolve, hloop]
    rfl
  · rcases huntold.undecodable_or_text with ⟨f, hf, rfl⟩ | ⟨cs, hcs⟩
    · rw [loadConfig_of_read hdir hpath hread, hf]
      rfl
    · rw [loadConfig_of_read hdir hpath hread, hcs]
      exact refused_of_untold hcs huntold

theorem loadConfig_cases (fs : Files) (start : Path) :
    (∃ c, loadConfig fs start = .ok c ∧ c.Valid) ∨ (∃ f, loadConfig fs start = .error f ∧ f.isConfig = true) ∨
      ∃ e, Refuses fs start e := by
  cases hdir : fs.resolve start with
  | error fault => exact .inr (.inr ⟨_, .inl ⟨⟨fault, hdir⟩, rfl⟩⟩)
  | ok dir =>
    cases hpath : file? fs dir with
    | none =>
      refine .inl ⟨.standard, ?_, Config.valid_standard⟩
      rw [loadConfig, resolve, hdir]
      dsimp only [Except.mapError, bind, Except.bind]
      rw [hpath]
      rfl
    | some path =>
      obtain ⟨content, hread⟩ := exists_of_isFile (List.find?_some hpath)
      cases hcs : Utf8.decode content with
      | error f => exact .inr (.inr ⟨_, .inr ⟨dir, path, content, hdir, hpath, hread, .undecodable hcs⟩⟩)
      | ok cs =>
        rw [loadConfig_of_read hdir hpath hread, hcs]
        exact (configOf_ends path hcs).imp_right (Or.imp_right (fun ⟨e, he⟩ =>
          ⟨e, .inr ⟨dir, path, content, hdir, hpath, hread, he⟩⟩))

/-- **How loading a configuration ends.**  A configuration that is loaded is valid.  A failure tells of a fault in the
configuration, or is a refusal, and there is one exactly for a reason why the fault is not told. -/
theorem loadConfig_ends (fs : Files) (start : Path) :
    (∀ c, loadConfig fs start = .ok c → c.Valid) ∧
    (∀ f, loadConfig fs start = .error f → f.isConfig = true ∨ ∃ e, f = .refused e) ∧
    ∀ e, loadConfig fs start = .error (.refused e) ↔ Refuses fs start e := by
  rcases loadConfig_cases fs start with ⟨c, hc, hvalid⟩ | ⟨f, hf, hconfig⟩ | ⟨e, he⟩
  · rw [hc]
    refine ⟨fun c' hc' => Except.ok.inj hc' ▸ hvalid, fun f hf => (by cases hf), fun e => ⟨fun h => (by cases h), fun h => ?_⟩⟩
    rw [loadConfig_of_refuses h] at hc
    cases hc
  · rw [hf]
    refine ⟨fun c hc => (by cases hc), fun f' hf' => .inl (Except.error.inj hf' ▸ hconfig), fun e => ⟨fun h => ?_, fun h => ?_⟩⟩
    · rw [Except.error.inj h] at hconfig
      cases hconfig
    · rw [← hf, loadConfig_of_refuses h]
  · have hrefused := loadConfig_of_refuses he
    rw [hrefused]
    refine ⟨fun c hc => (by cases hc), fun f hf => .inr ⟨e, (Except.error.inj hf).symm⟩, fun e' => ⟨fun h => ?_, fun h => ?_⟩⟩
    · cases h; exact he
    · rw [← hrefused, loadConfig_of_refuses h]

/-- A project whose file is no text, and one that has a number where the table of tools should be. -/
def unreadableProject : Files := ⟨[(["w"], .directory), (["w", "pyproject.toml"], .file [0xff])]⟩

@[inherit_doc unreadableProject]
def numberedProject : Files := ⟨[(["w"], .directory), (["w", "pyproject.toml"], .file (Bytes.ofString "tool = 1"))]⟩

theorem loadConfig_refused :
    (∃ fault, loadConfig unreadableProject (.fromRoot ["w"]) = .error (.refused (.undecodable fault))) ∧
      loadConfig numberedProject (.fromRoot ["w"]) = .error (.refused .noSuchPart) := by
  obtain ⟨fault, hfault⟩ : ∃ fault, Utf8.decode [0xff] = .error fault := ⟨_, rfl⟩
  have hread : Toml.read "tool = 1".toList = .ok (.table [("tool", .integer 1)]) := by cbv
  constructor
  · refine ⟨fault, ((loadConfig_ends unreadableProject _).2.2 _).2 (.inr ⟨.fromRoot ["w"],
      .fromRoot ["w", "pyproject.toml"], [0xff], ?_, ?_, ?_, .undecodable hfault⟩)⟩
    all_goals rfl
  · refine ((loadConfig_ends numberedProject _).2.2 _).2 (.inr ⟨.fromRoot ["w"],
      .fromRoot ["w", "pyproject.toml"], Bytes.ofString "tool = 1", ?_, ?_, ?_, .noTool (Utf8.decode_encode _) hread rfl
        (by simp)⟩)
    all_goals rfl

end Project
end TagAlias
