import TagAlias.Config
import TagAlias.Proofs.Data.Entries
import TagAlias.Proofs.Data.Sequence
import TagAlias.Proofs.Text.Lowercase
import TagAlias.Workspace.App
/-!
# What an accepted configuration settles

A configuration is accepted only if each of its settings is what it should be (`valid_of_ofValue`).  What comes after it
takes it as it is: the transformer checks the same again and refuses nothing, the dialect of a suffix is what the last of
its entries says, and sources are found by just the suffixes that have a dialect (`settled_of_ofValue`).
-/
namespace TagAlias
namespace Config

variable {v : Value} {c : Config}

/-! ## Settings -/

/-- A configuration as it is accepted. -/
structure Valid (c : Config) : Prop where
  stem : Text.isIdentifier c.stem = true
  jobs : 1 ≤ c.jobs
  dotted : ∀ e ∈ c.extensions, e.1.toList.head? = some '.'

def givenExtensions (v : Value) : List (String × Value) :=
  match v.get? "extensions" with
  | some (.table es) => es
  | _ => []

theorem readStem_ok {given : Option Value} {s : String} (h : readStem given = .ok s) : Text.isIdentifier s = true := by
  unfold readStem at h
  split at h
  · cases h; decide +kernel
  · split at h
    · next hs => cases h; exact hs
    · cases h
  · cases h

theorem readJobs_ok {given : Option Value} {n : Nat} (h : readJobs given = .ok n) : 1 ≤ n := by
  unfold readJobs at h
  split at h
  · cases h; decide
  · split at h
    · next k hk => cases h; omega
    · cases h
  · cases h

/-- The settings of an accepted configuration, read one by one. -/
theorem ofValue_ok (h : ofValue v = .ok c) : readStem (v.get? "prefix") = .ok c.stem ∧
    (givenExtensions v).foldlM readExtension [] = .ok c.extensions ∧ readJobs (v.get? "jobs") = .ok c.jobs := by
  unfold ofValue at h
  cases v with
  | table es =>
    obtain ⟨stem, hstem, h⟩ := exists_of_bind h
    obtain ⟨scanPaths, -, h⟩ := exists_of_bind h
    obtain ⟨extensions, hextensions, h⟩ := exists_of_bind h
    obtain ⟨policy, -, h⟩ := exists_of_bind h
    obtain ⟨outDir, -, h⟩ := exists_of_bind h
    obtain ⟨jobs, hjobs, h⟩ := exists_of_bind h
    cases h
    refine ⟨hstem, ?_, hjobs⟩
    unfold readExtensions at hextensions
    unfold givenExtensions
    split at hextensions
    · next hnone => rw [hnone]; exact hextensions
    · next es' hsome => rw [hsome]; exact hextensions
    · cases hextensions
  | _ => cases h

/-! ## Entries for suffixes -/

/-- The last of some entries that is for a suffix. -/
def lastFor? (es : List (String × Value)) (suffix : String) : Option (String × Value) :=
  es.reverse.find? (fun e => suffixOf e.1 == suffix)

theorem lastFor?_cons (e : String × Value) (es : List (String × Value)) (suffix : String) :
    lastFor? (e :: es) suffix = (lastFor? es suffix).or (if suffixOf e.1 = suffix then some e else none) := by
  rw [lastFor?, List.reverse_cons, List.find?_append, lastFor?]
  by_cases h : suffixOf e.1 = suffix <;> simp [h]

theorem readExtension_ok {known exts : List (String × Dialect)} {e : String × Value}
    (h : readExtension known e = .ok exts) : ∃ d, Dialect.ofText? e.2.display = some d ∧
      exts = setDialect known (suffixOf e.1) d := by
  unfold readExtension at h
  split at h
  · next d hd => exact ⟨d, hd, (Except.ok.inj h).symm⟩
  · cases h

theorem lookup_setDialect (known : List (String × Dialect)) (suffix other : String) (d : Dialect) :
    (setDialect known suffix d).lookup other = if other = suffix then some d else known.lookup other :=
  lookup_set known suffix other d

/-- **The last entry for a suffix counts**, and names a dialect. -/
theorem lookup_extensions (suffix : String) : ∀ {es : List (String × Value)} {known exts : List (String × Dialect)},
    es.foldlM readExtension known = .ok exts →
    (∀ e, lastFor? es suffix = some e → ∃ d, Dialect.ofText? e.2.display = some d ∧ exts.lookup suffix = some d) ∧
      (lastFor? es suffix = none → exts.lookup suffix = known.lookup suffix)
  | [], known, exts, h => by
    cases h
    exact ⟨fun e he => (by cases he), fun _ => rfl⟩
  | e :: es, known, exts, h => by
    obtain ⟨next, hnext, hrest⟩ := foldlM_cons_ok h
    obtain ⟨d, hd, rfl⟩ := readExtension_ok hnext
    obtain ⟨hsome, hnone⟩ := lookup_extensions suffix hrest
    rw [lastFor?_cons]
    cases hlast : lastFor? es suffix with
    | some e' =>
      refine ⟨fun x hx => ?_, fun hx => (by cases hx)⟩
      rw [Option.some_or, Option.some.injEq] at hx
      exact hx ▸ hsome e' hlast
    | none =>
      have hlookup := hnone hlast
      rw [lookup_setDialect] at hlookup
      rw [Option.none_or]
      by_cases hsuffix : suffixOf e.1 = suffix
      · rw [if_pos hsuffix.symm] at hlookup
        rw [if_pos hsuffix]
        refine ⟨fun x hx => ?_, fun hx => (by cases hx)⟩
        rw [← Option.some.inj hx]
        exact ⟨d, hd, hlookup⟩
      · rw [if_neg (Ne.symm hsuffix)] at hlookup
        rw [if_neg hsuffix]
        exact ⟨fun x hx => (by cases hx), fun _ => hlookup⟩

theorem mem_setDialect {known : List (String × Dialect)} {suffix : String} {d : Dialect} {e : String × Dialect}
    (h : e ∈ setDialect known suffix d) : e = (suffix, d) ∨ e ∈ known := by
  unfold setDialect at h
  split at h
  · obtain ⟨e', he', rfl⟩ := List.mem_map.1 h
    split
    · exact .inl rfl
    · exact .inr he'
  · rw [List.mem_append, List.mem_singleton] at h
    exact h.symm

/-- The suffixes of a configuration are those that its entries stand for. -/
theorem exists_suffixOf {es : List (String × Value)} : ∀ {known exts : List (String × Dialect)},
    es.foldlM readExtension known = .ok exts → (∀ e ∈ known, ∃ key, e.1 = suffixOf key) → ∀ e ∈ exts, ∃ key, e.1 = suffixOf key := by
  induction es with
  | nil => intro known exts h hknown; cases h; exact hknown
  | cons e es ih =>
    intro known exts h hknown
    obtain ⟨next, hnext, hrest⟩ := foldlM_cons_ok h
    obtain ⟨d, -, rfl⟩ := readExtension_ok hnext
    refine ih hrest (fun x hx => ?_)
    rcases mem_setDialect hx with rfl | hx
    · exact ⟨e.1, rfl⟩
    · exact hknown x hx

theorem head?_suffixOf (key : String) : (suffixOf key).toList.head? = some '.' := by
  unfold suffixOf
  apply Text.head?_lower
  split
  · next h => exact eq_of_beq h
  · simp

theorem lower_suffixOf (key : String) : Text.lower (suffixOf key) = suffixOf key := Text.lower_lower _

theorem valid_of_ofValue (h : ofValue v = .ok c) : c.Valid := by
  obtain ⟨hstem, hextensions, hjobs⟩ := ofValue_ok h
  refine ⟨readStem_ok hstem, readJobs_ok hjobs, fun e he => ?_⟩
  obtain ⟨key, hkey⟩ := exists_suffixOf hextensions (by simp) e he
  rw [hkey, head?_suffixOf]

/-! ## Dialects -/

theorem ofName?_name (p : MemberTagPolicy) : MemberTagPolicy.ofName? p.name = some p := by
  cases p <;> decide

theorem ofText?_name (d : Dialect) : Dialect.ofText? d.name = some d := by
  cases d <;> decide +kernel

theorem lookup_overrides (c : Config) (suffix : String) :
    c.overrides.lookup suffix = (c.extensions.lookup suffix).map (fun d => .text d.name) := by
  unfold overrides
  induction c.extensions with
  | nil => rfl
  | cons e es ih =>
    rw [List.map_cons, List.lookup_cons, List.lookup_cons, ih]
    split <;> rfl

/-- The dialect of a file is what a configuration says of its suffix, or what the table says, or the one for both. -/
theorem resolve_overrides (c : Config) (file : String) : Dialect.resolve file c.overrides none =
    .ok (((c.extensions.lookup (Path.ofString file).suffix).or
      (Dialect.suffixTable.lookup (Path.ofString file).suffix)).getD .tsx) := by
  rw [Dialect.resolve, Dialect.ofFile]
  generalize (Path.ofString file).suffix = suffix
  generalize Dialect.suffixTable.lookup suffix = tabled
  rw [lookup_overrides]
  cases c.extensions.lookup suffix with
  | none => rfl
  | some d => simp [Dialect.ofValue, Value.display, ofText?_name]

theorem lower_of_mem_suffixTable : ∀ e ∈ Dialect.suffixTable, Text.lower e.1 = e.1 := by decide +kernel

/-- Sources are found by the suffixes of the configuration and those of the table. -/
theorem matches_discovery_iff (w : Workspace) (hlower : ∀ e ∈ w.config.extensions, Text.lower e.1 = e.1) (p : Path) :
    w.discovery.matches_ p = true ↔
      (w.config.extensions.lookup p.suffix).isSome = true ∨ (Dialect.suffixTable.lookup p.suffix).isSome = true := by
  have htable : Dialect.suffixTable.map (Text.lower ∘ (·.1)) = Dialect.suffixTable.map (·.1) :=
    List.map_congr_left lower_of_mem_suffixTable
  have hgiven : w.config.extensions.map (Text.lower ∘ (·.1)) = w.config.extensions.map (·.1) :=
    List.map_congr_left hlower
  have hsame : (Dialect.suffixTable.map (·.1) ++ w.config.extensions.map (·.1)).map Text.lower =
      Dialect.suffixTable.map (·.1) ++ w.config.extensions.map (·.1) := by
    rw [List.map_append, List.map_map, List.map_map, htable, hgiven]
  rw [Workspace.discovery, Discovery.of, Discovery.matches_, hsame, List.contains_append, Bool.or_eq_true, or_comm,
    isSome_lookup_iff, isSome_lookup_iff, List.contains_eq_any_beq, List.contains_eq_any_beq, List.any_map, List.any_map]
  simp only [Function.comp_def, BEq.comm]

/-- **What a configuration that is accepted settles.**  The transformer takes it without a fault.  Every file has a dialect:
the last entry for its suffix names it, or else the table does, or else it is the one for markup and types.  A file is found
as a source exactly if its dialect is named in one of the first two ways. -/
theorem settled_of_ofValue (parse : Parse) (root : Path) (h : ofValue v = .ok c) :
    Transformer.ofValues (.text c.stem) (.text c.policy.name) c.overrides = .ok c.transformer ∧
    ∀ file : String,
      (∃ d, Dialect.resolve file c.transformer.overrides none = .ok d ∧
        (∀ e, lastFor? (givenExtensions v) (Path.ofString file).suffix = some e →
          Dialect.ofText? e.2.display = some d) ∧
        (lastFor? (givenExtensions v) (Path.ofString file).suffix = none →
          d = (Dialect.suffixTable.lookup (Path.ofString file).suffix).getD .tsx)) ∧
      ((⟨parse, root, c⟩ : Workspace).discovery.matches_ (Path.ofString file) = true ↔
        (lastFor? (givenExtensions v) (Path.ofString file).suffix).isSome = true ∨
          (Dialect.suffixTable.lookup (Path.ofString file).suffix).isSome = true) := by
  obtain ⟨-, hextensions, -⟩ := ofValue_ok h
  have hlower : ∀ e ∈ c.extensions, Text.lower e.1 = e.1 := by
    intro e he
    obtain ⟨key, hkey⟩ := exists_suffixOf hextensions (by simp) e he
    rw [hkey, lower_suffixOf]
  constructor
  · have hstem : Transformer.stemOf (.text c.stem) = .ok c.stem := if_pos (valid_of_ofValue h).stem
    have hpolicy : Transformer.policyOf (.text c.policy.name) = .ok c.policy := by
      rw [Transformer.policyOf, ofName?_name]
    rw [Transformer.ofValues, hstem, hpolicy]
    rfl
  · intro file
    obtain ⟨hsome, hnone⟩ := lookup_extensions (Path.ofString file).suffix hextensions
    have hresolve := resolve_overrides c file
    have hfound := matches_discovery_iff ⟨parse, root, c⟩ hlower (Path.ofString file)
    rw [transformer, hresolve, hfound]
    dsimp only
    generalize Dialect.suffixTable.lookup (Path.ofString file).suffix = tabled
    cases hlast : lastFor? (givenExtensions v) (Path.ofString file).suffix with
    | some e =>
      obtain ⟨d, hd, hlookup⟩ := hsome e hlast
      rw [hlookup, Option.some_or, Option.getD_some]
      refine ⟨⟨d, rfl, fun e' he' => ?_, fun hno => absurd hno (by simp)⟩, by simp⟩
      rw [← Option.some.inj he', hd]
    | none =>
      rw [hnone hlast, List.lookup_nil, Option.none_or]
      exact ⟨⟨_, rfl, fun e' he' => absurd he' (by simp), fun _ => rfl⟩, by simp⟩

/-- Settings with a suffix in two spellings, and one of the table. -/
def spelledSettings : Value :=
  .table [("prefix", .text "draw"),
    ("extensions", .table [("View", .text "tsx"), (".VIEW", .text "JavaScript"), ("ts", .text "tsx")])]

@[inherit_doc spelledSettings]
def spelledConfig : Config := ⟨"draw", [], [(".view", .javascript), (".ts", .tsx)], .aliased, none, 1⟩

theorem settled_spelled : ofValue spelledSettings = .ok spelledConfig ∧
    Dialect.resolve "a/Home.vIEW" spelledConfig.transformer.overrides none = .ok .javascript ∧
    (⟨.given default, .fromRoot ["w"], spelledConfig⟩ : Workspace).discovery.matches_ (Path.ofString "a/Home.vIEW") = true := by
  have haccepted : ofValue spelledSettings = .ok spelledConfig := by rfl
  have hsuffix : (Path.ofString "a/Home.vIEW").suffix = ".view" := by decide +kernel
  have hview : suffixOf ".VIEW" = ".view" := by decide +kernel
  have hts : suffixOf "ts" = ".ts" := by decide +kernel
  have hlast : lastFor? (givenExtensions spelledSettings) ".view" = some (".VIEW", .text "JavaScript") := by
    simp [lastFor?, givenExtensions, spelledSettings, Value.get?, List.lookup_cons, hview, hts]
  obtain ⟨-, hfiles⟩ := settled_of_ofValue (.given default) (.fromRoot ["w"]) haccepted
  obtain ⟨⟨d, hresolve, hnamed, -⟩, hfound⟩ := hfiles "a/Home.vIEW"
  rw [hsuffix] at hnamed hfound
  have hd : Dialect.ofText? "JavaScript" = some d := hnamed (".VIEW", .text "JavaScript") hlast
  have hd' : Dialect.ofText? "JavaScript" = some .javascript := by decide +kernel
  rw [hd, Option.some.injEq] at hd'
  rw [hd'] at hresolve
  rw [hlast, Option.isSome_some] at hfound
  exact ⟨haccepted, hresolve, hfound.2 (.inl rfl)⟩

end Config
end TagAlias
