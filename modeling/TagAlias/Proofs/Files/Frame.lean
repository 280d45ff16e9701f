import TagAlias.Files.Basic
import TagAlias.Proofs.Data.Entries
/-!
# What changing files leaves alone

Nothing that is done to files makes, changes or takes away a link, so a path leads to the same place all the while
(`resolve_congr`).  Directories are made only where nothing was, on the way of the path that asks for them
(`makeDirectories_grows`).  So a file that is written stands where its path leads, and all else is as before but for
directories on the way (`writeInto_places`).
-/
namespace TagAlias
namespace Files

variable {fs fs' fs₁ fs₂ : Files}

/-! ## Entries -/

@[simp] theorem entry_nil (fs : Files) : fs.entry? [] = some .directory := rfl

theorem entry_of_ne_nil {names : List String} (h : names ≠ []) (fs : Files) : fs.entry? names = fs.entries.lookup names := by
  unfold entry?
  rw [if_neg (by rwa [List.isEmpty_iff])]

/-- **What is put under a name stands there, and all else as before.** -/
theorem entry_put (fs : Files) {names : List String} (hne : names ≠ []) (e : Entry) (at_ : List String) :
    Files.entry? (fs.put names e) at_ = if at_ = names then some e else fs.entry? at_ := by
  by_cases hnil : at_ = []
  · subst hnil
    rw [if_neg (fun h => hne h.symm)]; rfl
  rw [entry_of_ne_nil hnil, entry_of_ne_nil hnil]
  rw [← lookup_set fs.entries names at_ e]
  unfold put
  split <;> rfl

/-! ## Links stay -/

/-- The same links stand in both. -/
def SameLinks (fs fs' : Files) : Prop := ∀ names target, fs'.entry? names = some (.link target) ↔ fs.entry? names = some (.link target)

theorem SameLinks.refl (fs : Files) : SameLinks fs fs := fun _ _ => Iff.rfl

theorem SameLinks.trans (h : SameLinks fs fs₁) (h' : SameLinks fs₁ fs₂) : SameLinks fs fs₂ :=
  fun names target => (h' names target).trans (h names target)

theorem stepAlong_congr (h : SameLinks fs fs') {follow follow' : List String → List String → Except FileFault (List String)}
    (hfollow : ∀ dir rest, follow' dir rest = follow dir rest) : ∀ (rest dir : List String),
    stepAlong fs' follow' dir rest = stepAlong fs follow dir rest
  | [], dir => by rw [stepAlong, stepAlong]
  | name :: rest, dir => by
    rw [stepAlong, stepAlong, stepAlong_congr h hfollow rest, stepAlong_congr h hfollow rest]
    split
    · rfl
    · split
      · next target hlink => rw [(h _ _).1 hlink]; exact hfollow _ _
      · next hlink =>
        split
        · next target hlink' => exact absurd ((h _ _).2 hlink') (hlink target)
        · rfl

theorem resolveFrom_congr (h : SameLinks fs fs') : ∀ (n : Nat) (dir rest : List String),
    resolveFrom fs' n dir rest = resolveFrom fs n dir rest
  | 0, _, _ => rfl
  | n + 1, dir, rest => stepAlong_congr h (resolveFrom_congr h n) rest dir

/-- **With the same links a path leads to the same place.** -/
theorem resolve_congr (h : SameLinks fs fs') (p : Path) : fs'.resolve p = fs.resolve p := by
  rw [resolve, resolve, resolveFrom_congr h]

/-! ## A place that is found is where the path leads -/

theorem stepAlong_of_locateAlong {follow follow' : List String → List String → Except FileFault (List String)}
    (hfollow : ∀ dir rest names, follow dir rest = .ok names → follow' dir rest = .ok names) : ∀ (rest dir names : List String),
    locateAlong fs follow dir rest = .ok names → stepAlong fs follow' dir rest = .ok names
  | [], dir, names, h => by rw [locateAlong] at h; rw [stepAlong]; exact h
  | name :: rest, dir, names, h => by
    rw [locateAlong] at h
    rw [stepAlong]
    split at h
    · split at h
      · next hup => rw [if_pos hup]; exact stepAlong_of_locateAlong hfollow rest _ _ h
      · next hup =>
        rw [if_neg hup]
        split at h
        · next target hlink => exact hfollow _ _ _ h
        · next hlink => exact stepAlong_of_locateAlong hfollow rest _ _ h
    · cases h
    · cases h

theorem resolveFrom_of_locateFrom : ∀ (n : Nat) (dir rest names : List String),
    locateFrom fs n dir rest = .ok names → resolveFrom fs n dir rest = .ok names
  | 0, _, _, _, h => by cases h
  | n + 1, dir, rest, names, h => stepAlong_of_locateAlong (resolveFrom_of_locateFrom n) rest dir names h

theorem resolve_of_locate {p : Path} {names : List String} (h : fs.locate p = .ok names) :
    fs.resolve p = .ok (.fromRoot names) := by
  rw [resolve, resolveFrom_of_locateFrom _ _ _ _ h]; rfl

/-! ## Where paths lead -/

/-- A way without double dots that no link stands on. -/
structure Straight (fs : Files) (names : List String) : Prop where
  plain : ".." ∉ names
  unlinked : ∀ before target, before <+: names → fs.entry? before ≠ some (.link target)

theorem straight_nil (fs : Files) : Straight fs [] :=
  ⟨List.not_mem_nil, fun before target h => by rw [List.prefix_nil.1 h, entry_nil]; simp⟩

theorem Straight.before {names before : List String} (h : Straight fs names) (hpre : before <+: names) :
    Straight fs before :=
  ⟨fun hup => h.plain (hpre.subset hup), fun before' target hpre' => h.unlinked before' target (hpre'.trans hpre)⟩

theorem Straight.snoc {names : List String} (h : Straight fs names) {name : String} (hup : name ≠ "..")
    (hname : ∀ target, fs.entry? (names ++ [name]) ≠ some (.link target)) : Straight fs (names ++ [name]) := by
  refine ⟨?_, fun before target hpre => ?_⟩
  · rw [List.mem_append, List.mem_singleton]
    exact fun hmem => hmem.elim h.plain (fun heq => hup heq.symm)
  · rcases List.prefix_concat_iff.1 hpre with rfl | hpre
    · exact hname target
    · exact h.unlinked before target hpre

theorem straight_of_stepAlong {follow : List String → List String → Except FileFault (List String)}
    (hfollow : ∀ dir rest names, Straight fs dir → follow dir rest = .ok names → Straight fs names) :
    ∀ (rest dir names : List String), Straight fs dir → stepAlong fs follow dir rest = .ok names → Straight fs names
  | [], dir, names, hdir, h => by rw [stepAlong] at h; rwa [← Except.ok.inj h]
  | name :: rest, dir, names, hdir, h => by
    rw [stepAlong] at h
    split at h
    · exact straight_of_stepAlong hfollow rest _ _ (hdir.before (List.dropLast_prefix dir)) h
    · next hup =>
      split at h
      · next target hlink =>
        refine hfollow _ _ _ ?_ h
        split
        · exact straight_nil fs
        · exact hdir
      · next hlink => exact straight_of_stepAlong hfollow rest _ _ (hdir.snoc (by simpa using hup) hlink) h

theorem straight_of_resolveFrom : ∀ (n : Nat) (dir rest names : List String), Straight fs dir →
    resolveFrom fs n dir rest = .ok names → Straight fs names
  | 0, _, _, _, _, h => by cases h
  | n + 1, dir, rest, names, hdir, h => straight_of_stepAlong (straight_of_resolveFrom n) rest dir names hdir h

/-- **A path leads to a place with a straight way.** -/
theorem straight_of_resolve {p q : Path} (h : fs.resolve p = .ok q) : q = .fromRoot q.names ∧ Straight fs q.names := by
  rw [resolve] at h
  cases hnames : resolveFrom fs (linkLimit + 1) [] p.names with
  | error e => rw [hnames] at h; cases h
  | ok names =>
    rw [hnames] at h
    cases h
    exact ⟨rfl, straight_of_resolveFrom _ _ _ _ (straight_nil fs) hnames⟩

theorem stepAlong_of_straight {follow : List String → List String → Except FileFault (List String)} :
    ∀ (rest dir : List String), Straight fs (dir ++ rest) → stepAlong fs follow dir rest = .ok (dir ++ rest)
  | [], dir, _ => by rw [stepAlong, List.append_nil]
  | name :: rest, dir, h => by
    have hup : name ≠ ".." := fun hup => h.plain (by rw [hup]; simp)
    have hlink : ∀ target, fs.entry? (dir ++ [name]) ≠ some (.link target) := fun target =>
      h.unlinked _ target ⟨rest, by simp⟩
    rw [stepAlong, if_neg (by simpa using hup)]
    split
    · next target heq => exact absurd heq (hlink target)
    · rw [stepAlong_of_straight rest _ (by rwa [← List.append_cons]), ← List.append_cons]

/-- **A straight way leads where its names say.** -/
theorem resolve_of_straight {p : Path} (h : Straight fs p.names) : fs.resolve p = .ok (.fromRoot p.names) := by
  rw [resolve, resolveFrom, stepAlong_of_straight _ _ h]
  rfl

theorem names_of_resolve {p : Path} {names : List String} (h : Straight fs p.names)
    (hplace : fs.resolve p = .ok (.fromRoot names)) : p.names = names := by
  rw [resolve_of_straight h] at hplace
  simpa [Path.fromRoot] using hplace

theorem origin_of_resolve {p q : Path} (h : fs.resolve p = .ok q) : q.origin = .root := by
  rw [(straight_of_resolve h).1]
  rfl

/-! ## Making directories -/

/-- A path leads to a place on its way to another: with some of its first names. -/
def OnTheWay (fs : Files) (p : Path) (names : List String) : Prop :=
  ∃ q : Path, q.names <+: p.names ∧ fs.resolve q = .ok (.fromRoot names)

/-- New directories stand on the way of a path where nothing stood, and all else is as before. -/
def Grows (p : Path) (fs fs' : Files) : Prop :=
  ∀ names, fs'.entry? names = fs.entry? names ∨
    (fs.entry? names = none ∧ fs'.entry? names = some .directory ∧ OnTheWay fs p names)

theorem Grows.refl (p : Path) (fs : Files) : Grows p fs fs := fun _ => .inl rfl

theorem Grows.sameLinks {p : Path} (h : Grows p fs fs') : SameLinks fs fs' := by
  intro names target
  rcases h names with h | ⟨hnone, hdir, -⟩
  · rw [h]
  · rw [hnone, hdir]; simp

theorem Grows.trans {p : Path} (h : Grows p fs fs₁) (h' : Grows p fs₁ fs₂) : Grows p fs fs₂ := by
  intro names
  rcases h' names with h' | ⟨hnone, hdir, q, hq, hres⟩
  · rw [h']; exact h names
  · rcases h names with heq | ⟨-, hdir', -⟩
    · exact .inr ⟨heq ▸ hnone, hdir, q, hq, by rw [← resolve_congr h.sameLinks]; exact hres⟩
    · rw [hdir'] at hnone; cases hnone

theorem Grows.mono {p p' : Path} (h : Grows p fs fs') (hp : p.names <+: p'.names) : Grows p' fs fs' := fun names =>
  (h names).imp_right (fun ⟨hnone, hdir, q, hq, hres⟩ => ⟨hnone, hdir, q, hq.trans hp, hres⟩)

theorem stepAlong_snoc {follow : List String → List String → Except FileFault (List String)} {name : String} {dir : List String}
    (hname : name ≠ "..") (hentry : ∀ target, fs.entry? (dir ++ [name]) ≠ some (.link target))
    (hfollow : ∀ from_ rest, follow from_ rest = .ok dir → follow from_ (rest ++ [name]) = .ok (dir ++ [name])) :
    ∀ (rest from_ : List String), stepAlong fs follow from_ rest = .ok dir →
      stepAlong fs follow from_ (rest ++ [name]) = .ok (dir ++ [name])
  | [], from_, h => by
    rw [stepAlong, Except.ok.injEq] at h
    subst h
    rw [List.nil_append, stepAlong, if_neg (by simpa using hname)]
    split
    · next target hlink => exact absurd hlink (hentry target)
    · rw [stepAlong]
  | n :: rest, from_, h => by
    rw [stepAlong] at h
    rw [List.cons_append, stepAlong]
    split at h
    · next hup => rw [if_pos hup]; exact stepAlong_snoc hname hentry hfollow rest _ h
    · next hup =>
      rw [if_neg hup]
      split at h
      · next target hlink =>
        rw [← List.append_assoc]
        exact hfollow _ _ h
      · exact stepAlong_snoc hname hentry hfollow rest _ h

theorem resolveFrom_snoc {name : String} {dir : List String} (hname : name ≠ "..")
    (hentry : ∀ target, fs.entry? (dir ++ [name]) ≠ some (.link target)) : ∀ (n : Nat) (from_ rest : List String),
    resolveFrom fs n from_ rest = .ok dir → resolveFrom fs n from_ (rest ++ [name]) = .ok (dir ++ [name])
  | 0, _, _, h => by cases h
  | n + 1, from_, rest, h => stepAlong_snoc hname hentry (resolveFrom_snoc hname hentry n) rest from_ h

theorem names_parent (p : Path) (h : p.names ≠ []) : p.parent.names ++ [p.name] = p.names := by
  unfold Path.parent Path.name
  rw [List.getLast?_eq_some_getLast h]
  exact List.dropLast_concat_getLast h

theorem makeDirectory_grows {p : Path} (h : fs.makeDirectory p = .ok fs') : Grows p fs fs' := by
  unfold makeDirectory at h
  split at h
  · cases h
  · next dir hdir =>
    split at h
    · split at h
      · cases h
      · next hname =>
        split at h
        · cases h
        · next hnone =>
          rw [Except.ok.injEq] at h
          simp only [Bool.or_eq_true, List.isEmpty_iff, beq_iff_eq, not_or] at hname
          rw [Bool.not_eq_true, Option.isSome_eq_false_iff, Option.isNone_iff_eq_none] at hnone
          have hplace : fs.resolve p = .ok (.fromRoot (dir ++ [p.name])) := by
            have hparent := resolve_of_locate hdir
            rw [resolve] at hparent ⊢
            obtain ⟨d, hd, heq⟩ : ∃ d, resolveFrom fs (linkLimit + 1) [] p.parent.names = .ok d ∧ d = dir := by
              have := resolveFrom_of_locateFrom _ _ _ _ hdir
              exact ⟨dir, this, rfl⟩
            subst heq
            rw [← names_parent p hname.1, resolveFrom_snoc hname.2 (fun target => by rw [hnone]; simp) _ _ _ hd]
            rfl
          intro names
          rw [← h, entry_put fs (by simp)]
          split
          · next heq => exact .inr ⟨heq ▸ hnone, rfl, p, List.prefix_refl _, heq ▸ hplace⟩
          · exact .inl rfl
    · cases h
    · cases h

theorem ensureDirectory_grows (fs : Files) (p : Path) : Grows p fs (fs.ensureDirectory p).1 := by
  unfold ensureDirectory
  cases h : fs.makeDirectory p with
  | error e => exact Grows.refl p fs
  | ok fs' => exact makeDirectory_grows h

theorem makeDirectoriesUp_grows (origin : Origin) : ∀ (names : List String) (fs : Files),
    Grows ⟨origin, names.reverse⟩ fs (fs.makeDirectoriesUp origin names).1
  | [], fs => Grows.refl _ fs
  | name :: above, fs => by
    have hup : Grows ⟨origin, (name :: above).reverse⟩ fs (fs.makeDirectoriesUp origin above).1 :=
      (makeDirectoriesUp_grows origin above fs).mono (by rw [List.reverse_cons]; exact List.prefix_append _ _)
    have hhere := ensureDirectory_grows fs ⟨origin, (name :: above).reverse⟩
    rw [makeDirectoriesUp]
    split
    · split
      · next fs₁ e heq => rw [heq] at hup; exact hup
      · next fs₁ heq => rw [heq] at hup; exact hup.trans (ensureDirectory_grows fs₁ _)
    · exact hhere

/-- **Making directories adds directories on the way and changes nothing else.** -/
theorem makeDirectories_grows (fs : Files) (p : Path) : Grows p fs (fs.makeDirectories p).1 := by
  have h := makeDirectoriesUp_grows p.origin p.names.reverse fs
  rwa [List.reverse_reverse] at h

/-! ## Writing files -/

/-- A path is written: it leads to a place where now a file with the content stands.  Elsewhere all is as before, but for
directories on the way. -/
structure Places (fs : Files) (p : Path) (content : Bytes) (fs' : Files) (names : List String) : Prop where
  resolve : fs.resolve p = .ok (.fromRoot names)
  file : fs'.entry? names = some (.file content)
  elsewhere : ∀ other, other ≠ names → fs'.entry? other = fs.entry? other ∨
    (fs.entry? other = none ∧ fs'.entry? other = some .directory ∧ OnTheWay fs p other)
  sameLinks : SameLinks fs fs'

theorem write_ok {p : Path} {content : Bytes} (h : fs.write p content = .ok fs') :
    ∃ names, names ≠ [] ∧ fs.locate p = .ok names ∧ fs' = fs.put names (.file content) := by
  unfold write at h
  split at h
  · cases h
  · next names hnames =>
    have hne : fs.entry? names ≠ some .directory → names ≠ [] := fun hdir hnil => hdir (by rw [hnil, entry_nil])
    split at h
    · cases h
    · next e hnot he => exact ⟨names, hne (by rw [he]; simpa using hnot), hnames, (Except.ok.inj h).symm⟩
    · next hnone =>
      split at h
      · exact ⟨names, hne (by rw [hnone]; simp), hnames, (Except.ok.inj h).symm⟩
      · cases h

theorem sameLinks_put {names : List String} (hne : names ≠ []) (h : ∀ target, fs.entry? names ≠ some (.link target))
    (content : Bytes) : SameLinks fs (fs.put names (.file content)) := by
  intro at_ target
  rw [entry_put fs hne]
  split
  · next hat => rw [hat]; exact ⟨fun hlink => absurd (Option.some.inj hlink) (by simp), fun hlink => absurd hlink (h target)⟩
  · rfl

/-- **A file that is written stands where its path leads.** -/
theorem writeInto_places {p : Path} {content : Bytes} (h : fs.writeInto p content = (fs', none)) :
    ∃ names, Places fs p content fs' names := by
  have hgrows : Grows p fs (fs.makeDirectories p.parent).1 :=
    (makeDirectories_grows fs p.parent).mono (List.dropLast_prefix p.names)
  unfold writeInto at h
  split at h
  · cases h
  · next mid hmid =>
    rw [hmid] at hgrows
    split at h
    · next fs₁ hwrite =>
      cases h
      obtain ⟨names, hne, hlocate, rfl⟩ := write_ok hwrite
      have hunlinked := (straight_of_resolve (resolve_of_locate hlocate)).2.unlinked names
      refine ⟨names, ⟨?_, ?_, ?_, ?_⟩⟩
      · rw [← resolve_congr hgrows.sameLinks]; exact resolve_of_locate hlocate
      · rw [entry_put mid hne, if_pos rfl]
      · intro other hother
        rw [entry_put mid hne, if_neg hother]
        exact hgrows other
      · exact hgrows.sameLinks.trans (sameLinks_put hne (fun target => hunlinked target (List.prefix_refl _)) content)
    · cases h

/-- A write that fails may have made directories on its way. -/
theorem writeInto_grows {p : Path} {content : Bytes} {e : FileFault × Path} (h : fs.writeInto p content = (fs', some e)) :
    Grows p fs fs' := by
  have hgrows : Grows p fs (fs.makeDirectories p.parent).1 :=
    (makeDirectories_grows fs p.parent).mono (List.dropLast_prefix p.names)
  unfold writeInto at h
  split at h
  · next fs₁ e' hmid => cases h; rw [hmid] at hgrows; exact hgrows
  · next mid hmid =>
    rw [hmid] at hgrows
    split at h
    · cases h
    · cases h; exact hgrows

end Files
end TagAlias
