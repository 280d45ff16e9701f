import Mathlib.Logic.Relation
import TagAlias.Proofs.Files.Frame
/-!
# Files in their directories

In a proper file system each name stands once and is plain, and everything stands in a directory.  Changes put one thing after another
into directories that are there (`writeInto_builds`), so they keep a file system proper and what stands in it of its kind
(`Builds.proper`, `Builds.stays`).  There what is found on a straight way is what stands at its names, and writing what
stands there already changes nothing (`writeInto_same`).
-/
namespace TagAlias
namespace Files

variable {fs fs' fs₁ : Files}

structure Proper (fs : Files) : Prop where
  distinct : (fs.entries.map (·.1)).Nodup
  rooted : ∀ names e, fs.entry? names = some e → fs.entry? names.dropLast = some .directory
  plain : ∀ names e, fs.entry? names = some e → ".." ∉ names

theorem prefix_dropLast {dir names : List String} (h : dir <+: names) (hne : dir ≠ names) : dir <+: names.dropLast := by
  obtain ⟨rest, rfl⟩ := h
  have hrest : rest ≠ [] := fun hnil => hne (by rw [hnil, List.append_nil])
  rw [List.dropLast_append_of_ne_nil hrest]
  exact List.prefix_append _ _

/-- **Above what stands somewhere are directories.** -/
theorem Proper.above (h : fs.Proper) {dir : List String} : ∀ {names : List String} {e : Entry},
    fs.entry? names = some e → dir <+: names → dir ≠ names → fs.entry? dir = some .directory := by
  intro names
  induction hlength : names.length generalizing names with
  | zero =>
    intro e _ hpre hne
    rw [List.length_eq_zero_iff.1 hlength] at hpre hne
    exact absurd (List.prefix_nil.1 hpre) hne
  | succ n ih =>
    intro e he hpre hne
    have hparent := h.rooted names e he
    by_cases heq : dir = names.dropLast
    · rw [heq, hparent]
    · exact ih (by rw [List.length_dropLast]; omega) hparent (prefix_dropLast hpre hne) heq

/-! ## Putting things into directories -/

/-- One thing is put into a directory: a directory where nothing stood, or a file where no directory and no link stood. -/
inductive Puts (fs : Files) : Files → Prop where
  | directory {dir : List String} {name : String} (hdir : fs.entry? dir = some .directory) (hup : name ≠ "..")
      (hnone : fs.entry? (dir ++ [name]) = none) : Puts fs (fs.put (dir ++ [name]) .directory)
  | file {dir : List String} {name : String} {content : Bytes} (hdir : fs.entry? dir = some .directory) (hup : name ≠ "..")
      (hfile : fs.entry? (dir ++ [name]) = none ∨ ∃ old, fs.entry? (dir ++ [name]) = some (.file old)) :
      Puts fs (fs.put (dir ++ [name]) (.file content))

/-- One thing after another is put into directories. -/
abbrev Builds : Files → Files → Prop := Relation.ReflTransGen Puts

/-- What stands somewhere keeps standing there, as a thing of its kind. -/
structure Stays (fs fs' : Files) : Prop where
  directory : ∀ names, fs.entry? names = some .directory → fs'.entry? names = some .directory
  file : ∀ names content, fs.entry? names = some (.file content) → ∃ content', fs'.entry? names = some (.file content')

theorem Stays.refl (fs : Files) : Stays fs fs := ⟨fun _ h => h, fun _ content h => ⟨content, h⟩⟩

theorem Stays.trans (h : Stays fs fs₁) (h' : Stays fs₁ fs') : Stays fs fs' :=
  ⟨fun names hdir => h'.directory names (h.directory names hdir), fun names content hfile =>
    have ⟨content₁, hfile₁⟩ := h.file names content hfile
    h'.file names content₁ hfile₁⟩

theorem distinct_put (h : (fs.entries.map (·.1)).Nodup) (names : List String) (e : Entry) :
    ((fs.put names e).entries.map (·.1)).Nodup := by
  unfold put
  split
  · have hkeys : (fs.entries.map (fun x => if x.1 == names then (names, e) else x)).map (·.1) = fs.entries.map (·.1) := by
      rw [List.map_map]
      refine List.map_congr_left (fun x _ => ?_)
      by_cases hx : x.1 = names <;> simp [hx]
    rwa [hkeys]
  · next hany =>
    have hnew : names ∉ fs.entries.map (·.1) := by
      intro hmem
      obtain ⟨x, hx, heq⟩ := List.mem_map.1 hmem
      exact hany (List.any_eq_true.2 ⟨x, hx, beq_iff_eq.2 heq⟩)
    rw [List.map_append, List.nodup_append]
    refine ⟨h, by simp, fun a ha b hb heq => hnew ?_⟩
    rw [List.map_singleton, List.mem_singleton] at hb
    rwa [heq, hb] at ha

theorem Proper.put (h : fs.Proper) {dir : List String} {name : String} (hdir : fs.entry? dir = some .directory)
    (hup : name ≠ "..") (hnot : fs.entry? (dir ++ [name]) ≠ some .directory) (e : Entry) :
    (fs.put (dir ++ [name]) e).Proper := by
  have hthere : ∀ names e', Files.entry? (fs.put (dir ++ [name]) e) names = some e' →
      fs.entry? names.dropLast = some .directory ∧ ".." ∉ names := by
    intro names e' he'
    rw [entry_put fs (by simp)] at he'
    split at he'
    · next heq =>
      rw [heq, List.dropLast_concat]
      exact ⟨hdir, by simpa using ⟨h.plain dir _ hdir, hup.symm⟩⟩
    · exact ⟨h.rooted names e' he', h.plain names e' he'⟩
  refine ⟨distinct_put h.distinct _ e, fun names e' he' => ?_, fun names e' he' => (hthere names e' he').2⟩
  have hparent := (hthere names e' he').1
  have hne : names.dropLast ≠ dir ++ [name] := fun heq => hnot (by rw [← heq, hparent])
  rw [entry_put fs (by simp), if_neg hne, hparent]

theorem Puts.proper (hputs : Puts fs fs') (h : fs.Proper) : fs'.Proper := by
  cases hputs with
  | directory hdir hup hnone => exact h.put hdir hup (by simp [hnone]) _
  | file hdir hup hfile => exact h.put hdir hup (by rcases hfile with h | ⟨_, h⟩ <;> simp [h]) _

theorem Puts.stays (hputs : Puts fs fs') : Stays fs fs' := by
  constructor
  · intro names hthere
    cases hputs with
    | directory hdir hup hnone => rw [entry_put fs (by simp), hthere]; simp
    | file hdir hup hfile =>
      rw [entry_put fs (by simp), if_neg, hthere]
      rintro rfl
      rcases hfile with h | ⟨_, h⟩ <;> simp [h] at hthere
  · intro names content hthere
    cases hputs with
    | directory hdir hup hnone =>
      rw [entry_put fs (by simp), if_neg (by rintro rfl; simp [hnone] at hthere)]
      exact ⟨content, hthere⟩
    | file hdir hup hfile =>
      rw [entry_put fs (by simp)]
      split
      · exact ⟨_, rfl⟩
      · exact ⟨content, hthere⟩

/-- **A file system stays proper.** -/
theorem Builds.proper (hbuilds : Builds fs fs') (h : fs.Proper) : fs'.Proper := by
  induction hbuilds with
  | refl => exact h
  | tail _ hputs ih => exact hputs.proper ih

/-- **What stands in a file system stays of its kind.** -/
theorem Builds.stays (hbuilds : Builds fs fs') : Stays fs fs' := by
  induction hbuilds with
  | refl => exact .refl fs
  | tail _ hputs ih => exact ih.trans hputs.stays

/-- Whatever is built from nothing is proper. -/
theorem proper_of_builds (h : Builds empty fs) : fs.Proper := by
  refine h.proper ⟨List.nodup_nil, fun names e he => ?_, fun names e he => ?_⟩ <;> cases names
  · rfl
  · cases he
  · simp
  · cases he

theorem proper_of_entries (hdistinct : (fs.entries.map (·.1)).Nodup)
    (h : ∀ x ∈ fs.entries, fs.entry? x.1.dropLast = some .directory ∧ ".." ∉ x.1) : fs.Proper := by
  have hthere : ∀ names e, fs.entry? names = some e → fs.entry? names.dropLast = some .directory ∧ ".." ∉ names := by
    intro names e he
    by_cases hnil : names = []
    · rw [hnil]; exact ⟨rfl, List.not_mem_nil⟩
    · rw [entry_of_ne_nil hnil] at he
      exact h (names, e) (mem_of_lookup he)
  exact ⟨hdistinct, fun names e he => (hthere names e he).1, fun names e he => (hthere names e he).2⟩

/-! ## Changes -/

theorem makeDirectory_builds {p : Path} (h : fs.makeDirectory p = .ok fs') : Builds fs fs' := by
  unfold makeDirectory at h
  split at h
  · cases h
  · next dir _ =>
    split at h
    · next hdir =>
      split at h
      · cases h
      · next hname =>
        simp only [Bool.or_eq_true, beq_iff_eq, not_or] at hname
        split at h
        · cases h
        · next hnone =>
          cases h
          exact .single (.directory hdir hname.2 (by simpa using hnone))
    · cases h
    · cases h

theorem ensureDirectory_builds (fs : Files) (p : Path) : Builds fs (fs.ensureDirectory p).1 := by
  unfold ensureDirectory
  cases h : fs.makeDirectory p with
  | error e => exact .refl
  | ok fs' => exact makeDirectory_builds h

theorem makeDirectoriesUp_builds (origin : Origin) : ∀ (names : List String) (fs : Files),
    Builds fs (fs.makeDirectoriesUp origin names).1
  | [], fs => .refl
  | name :: above, fs => by
    have hup := makeDirectoriesUp_builds origin above fs
    have hhere := ensureDirectory_builds fs ⟨origin, (name :: above).reverse⟩
    rw [makeDirectoriesUp]
    split
    · split
      · next fs₁ e heq => rw [heq] at hup; exact hup
      · next fs₁ heq => rw [heq] at hup; exact hup.trans (ensureDirectory_builds fs₁ _)
    · exact hhere

theorem write_builds {p : Path} {content : Bytes} (hproper : fs.Proper) (h : fs.write p content = .ok fs') :
    Builds fs fs' := by
  obtain ⟨names, hne, hlocate, rfl⟩ := write_ok h
  have hstraight := (straight_of_resolve (resolve_of_locate hlocate)).2
  unfold write at h
  rw [hlocate] at h
  obtain ⟨dir, name, rfl⟩ : ∃ dir name, names = dir ++ [name] := ⟨_, _, (List.dropLast_concat_getLast hne).symm⟩
  have hup : name ≠ ".." := fun hup => hstraight.plain (by simp [Path.fromRoot, hup])
  dsimp only at h
  rw [List.dropLast_concat] at h
  cases hentry : fs.entry? (dir ++ [name]) with
  | none =>
    rw [hentry] at h
    dsimp only at h
    split at h
    · next hdir => exact .single (.file (by simpa using hdir) hup (.inl hentry))
    · cases h
  | some e =>
    have hdir := hproper.rooted _ e hentry
    rw [List.dropLast_concat] at hdir
    cases e with
    | directory => rw [hentry] at h; cases h
    | link target => exact absurd hentry (hstraight.unlinked _ target (List.prefix_refl _))
    | file old => exact .single (.file hdir hup (.inr ⟨old, hentry⟩))

/-- **Writing a file puts things into directories**, also if it fails on the way. -/
theorem writeInto_builds (hproper : fs.Proper) (p : Path) (content : Bytes) : Builds fs (fs.writeInto p content).1 := by
  have hup : Builds fs (fs.makeDirectories p.parent).1 := makeDirectoriesUp_builds _ _ fs
  unfold writeInto
  split
  · next fs₁ e heq => rw [heq] at hup; exact hup
  · next fs₁ heq =>
    rw [heq] at hup
    cases hwrite : fs₁.write p content with
    | error e => exact hup
    | ok fs₂ => exact hup.trans (write_builds (hup.proper hproper) hwrite)

/-! ## Straight ways -/

theorem locateAlong_congr {follow follow' : List String → List String → Except FileFault (List String)} :
    ∀ (rest dir : List String), Straight fs (dir ++ rest) →
      (∀ before, before <+: dir ++ rest → fs'.entry? before = fs.entry? before) →
      locateAlong fs' follow' dir rest = locateAlong fs follow dir rest
  | [], dir, _, _ => by rw [locateAlong, locateAlong]
  | name :: rest, dir, h, hsame => by
    have hhere : fs'.entry? (dir ++ [name]) = fs.entry? (dir ++ [name]) := hsame _ ⟨rest, by simp⟩
    have hunlinked : ∀ target, fs.entry? (dir ++ [name]) ≠ some (.link target) := fun target =>
      h.unlinked _ target ⟨rest, by simp⟩
    have hup : name ≠ ".." := fun hup => h.plain (by rw [hup]; simp)
    have hrest : locateAlong fs' follow' (dir ++ [name]) rest = locateAlong fs follow (dir ++ [name]) rest :=
      locateAlong_congr rest _ (by rwa [← List.append_cons]) (by rwa [← List.append_cons])
    rw [locateAlong, locateAlong, hsame dir (List.prefix_append _ _), hhere, if_neg (by simpa using hup),
      if_neg (by simpa using hup)]
    split
    · split
      · next target hlink => exact absurd hlink (hunlinked target)
      · exact hrest
    · rfl
    · rfl

/-- **What is found on a straight way depends on what stands on it.** -/
theorem find_congr {p : Path} (h : Straight fs p.names)
    (hsame : ∀ before, before <+: p.names → fs'.entry? before = fs.entry? before) : fs'.find p = fs.find p := by
  have hlocate : fs'.locate p = fs.locate p := locateAlong_congr p.names [] h hsame
  unfold find
  rw [hlocate]
  cases hnames : fs.locate p with
  | error e => rfl
  | ok names =>
    dsimp only
    rw [← names_of_resolve h (resolve_of_locate hnames), hsame p.names (List.prefix_refl _)]

theorem read_congr {p : Path} (h : Straight fs p.names)
    (hsame : ∀ before, before <+: p.names → fs'.entry? before = fs.entry? before) : fs'.read p = fs.read p := by
  rw [read, read, find_congr h hsame]

theorem locateAlong_of_entry (hproper : fs.Proper) {follow : List String → List String → Except FileFault (List String)}
    {e : Entry} : ∀ (rest dir : List String), Straight fs (dir ++ rest) → fs.entry? (dir ++ rest) = some e →
      locateAlong fs follow dir rest = .ok (dir ++ rest)
  | [], dir, _, _ => by rw [locateAlong, List.append_nil]
  | name :: rest, dir, h, he => by
    have hdir : fs.entry? dir = some .directory := hproper.above he (List.prefix_append _ _) (by simp)
    have hup : name ≠ ".." := fun hup => h.plain (by rw [hup]; simp)
    rw [locateAlong, hdir]
    dsimp only
    rw [if_neg (by simpa using hup)]
    split
    · next target hlink => exact absurd hlink (h.unlinked _ target ⟨rest, by simp⟩)
    · rw [List.append_cons dir name rest] at h he ⊢
      exact locateAlong_of_entry hproper rest _ h he

theorem locate_of_entry (hproper : fs.Proper) {p : Path} {e : Entry} (h : Straight fs p.names)
    (he : fs.entry? p.names = some e) : fs.locate p = .ok p.names := locateAlong_of_entry hproper p.names [] h he

/-- **What is found on a straight way is what stands at its names.** -/
theorem find_eq_ok_iff (hproper : fs.Proper) {p : Path} {e : Entry} (h : Straight fs p.names) :
    fs.find p = .ok e ↔ fs.entry? p.names = some e := by
  constructor
  · intro hfind
    unfold find at hfind
    cases hnames : fs.locate p with
    | error e => rw [hnames] at hfind; cases hfind
    | ok names =>
      rw [hnames, ← names_of_resolve h (resolve_of_locate hnames)] at hfind
      dsimp only at hfind
      split at hfind
      · next heq => rw [heq, Except.ok.inj hfind]
      · cases hfind
  · intro he
    unfold find
    rw [locate_of_entry hproper h he]
    dsimp only
    rw [he]

/-! ## What is gone -/

theorem locateAlong_of_fileless {follow : List String → List String → Except FileFault (List String)} :
    ∀ (rest dir : List String), Straight fs (dir ++ rest) →
      (∀ before content, dir <+: before → before <+: dir ++ rest → fs.entry? before ≠ some (.file content)) →
      locateAlong fs follow dir rest = .error .missing ∨ locateAlong fs follow dir rest = .ok (dir ++ rest)
  | [], dir, _, _ => .inr (by rw [locateAlong, List.append_nil])
  | name :: rest, dir, h, hfile => by
    have hup : name ≠ ".." := fun hup => h.plain (by rw [hup]; simp)
    have hrest : dir ++ name :: rest = dir ++ [name] ++ rest := by simp
    rw [locateAlong]
    cases hdir : fs.entry? dir with
    | none => exact .inl rfl
    | some e =>
      cases e with
      | file content => exact absurd hdir (hfile dir content (List.prefix_refl _) (List.prefix_append _ _))
      | link target => exact absurd hdir (h.unlinked _ target (List.prefix_append _ _))
      | directory =>
        dsimp only
        rw [if_neg (by simpa using hup)]
        split
        · next target hlink => exact absurd hlink (h.unlinked _ target ⟨rest, by simp⟩)
        · rw [hrest] at h hfile ⊢
          exact locateAlong_of_fileless rest _ h (fun before content hpre =>
            hfile before content ((List.prefix_append _ _).trans hpre))

theorem locateAlong_of_file (hproper : fs.Proper) {follow : List String → List String → Except FileFault (List String)}
    {before : List String} {content : Bytes} (hfile : fs.entry? before = some (.file content)) :
    ∀ (rest dir : List String), Straight fs (dir ++ rest) → dir <+: before → before <+: dir ++ rest → before ≠ dir ++ rest →
      locateAlong fs follow dir rest = .error .notADirectory
  | [], dir, _, hdir, hpre, hne => by
    rw [List.append_nil] at hpre hne
    exact absurd (hpre.eq_of_length_le hdir.length_le) hne
  | name :: rest, dir, h, hdir, hpre, hne => by
    have hup : name ≠ ".." := fun hup => h.plain (by rw [hup]; simp)
    have hrest : dir ++ name :: rest = dir ++ [name] ++ rest := by simp
    rw [locateAlong]
    by_cases heq : dir = before
    · rw [heq, hfile]
    · rw [hproper.above hfile hdir heq]
      dsimp only
      rw [if_neg (by simpa using hup)]
      split
      · next target hlink => exact absurd hlink (h.unlinked _ target ⟨rest, by simp⟩)
      · rw [hrest] at h hpre hne
        refine locateAlong_of_file hproper hfile rest _ h ?_ hpre hne
        rcases List.prefix_or_prefix_of_prefix hpre (List.prefix_append (dir ++ [name]) rest) with hbefore | hafter
        · rcases List.prefix_concat_iff.1 hbefore with hsame | hshort
          · exact hsame ▸ List.prefix_refl _
          · exact absurd (hdir.eq_of_length_le hshort.length_le) heq
        · exact hafter

/-- **What is gone is missed in a directory, or below a file.** -/
theorem find_of_gone (hproper : fs.Proper) {p : Path} (h : Straight fs p.names) (hgone : fs.entry? p.names = none) :
    ((∃ before content, before <+: p.names ∧ fs.entry? before = some (.file content)) →
      fs.find p = .error .notADirectory) ∧
    ((∀ before content, before <+: p.names → fs.entry? before ≠ some (.file content)) → fs.find p = .error .missing) := by
  unfold find
  constructor
  · rintro ⟨before, content, hpre, hfile⟩
    have hne : before ≠ p.names := fun heq => by rw [heq, hgone] at hfile; cases hfile
    have hlocate : fs.locate p = .error .notADirectory :=
      locateAlong_of_file hproper hfile p.names [] h (List.nil_prefix) hpre hne
    rw [hlocate]
  · intro hfile
    have hlocate : fs.locate p = .error .missing ∨ fs.locate p = .ok p.names :=
      locateAlong_of_fileless p.names [] h (fun before content _ hpre => hfile before content hpre)
    rcases hlocate with hlocate | hlocate
    · rw [hlocate]
    · rw [hlocate]
      dsimp only
      rw [hgone]

/-! ## Kinds of what is there -/

theorem isFile_iff (hproper : fs.Proper) {p : Path} (h : Straight fs p.names) :
    fs.isFile p = true ↔ ∃ content, fs.entry? p.names = some (.file content) := by
  simp only [← find_eq_ok_iff hproper h]
  unfold isFile
  split
  · next content heq => simp [heq]
  · next hnot => simpa using fun content => hnot content

theorem isDirectory_iff (hproper : fs.Proper) {p : Path} (h : Straight fs p.names) :
    fs.isDirectory p = true ↔ fs.entry? p.names = some .directory := by
  rw [← find_eq_ok_iff hproper h]
  unfold isDirectory
  split
  · next heq => simp [heq]
  · next hnot => simpa using hnot

/-! ## Writing what stands there -/

theorem put_same (h : (fs.entries.map (·.1)).Nodup) {names : List String} {e : Entry} (hne : names ≠ [])
    (he : fs.entry? names = some e) : fs.put names e = fs := by
  rw [entry_of_ne_nil hne] at he
  have hkept : fs.entries.map (fun x => if x.1 == names then (names, e) else x) = fs.entries := by
    refine (List.map_congr_left (fun x hx => ?_)).trans (List.map_id _)
    split
    · next heq =>
      have hlookup := lookup_of_mem_nodup h hx
      rw [eq_of_beq heq, he] at hlookup
      exact Prod.ext (eq_of_beq heq).symm (Option.some.inj hlookup)
    · rfl
  unfold put
  rw [if_pos (by rw [← isSome_lookup_iff, he]; rfl), hkept]

theorem makeDirectories_same (hproper : fs.Proper) {p : Path} (h : Straight fs p.names)
    (hdir : fs.entry? p.names = some .directory) : fs.makeDirectories p = (fs, none) := by
  unfold makeDirectories
  cases hnames : p.names.reverse with
  | nil => rfl
  | cons name above =>
    have hp : (⟨p.origin, (name :: above).reverse⟩ : Path) = p := by rw [← hnames, List.reverse_reverse]
    have hne : p.names ≠ [] := fun hnil => by rw [hnil] at hnames; cases hnames
    have hparent : fs.locate p.parent = .ok p.names.dropLast :=
      locate_of_entry hproper (h.before (List.dropLast_prefix _)) (hproper.rooted _ _ hdir)
    have hthere : fs.makeDirectory p = .error .alreadyThere := by
      unfold makeDirectory
      rw [hparent]
      dsimp only
      rw [hproper.rooted _ _ hdir]
      dsimp only
      split
      · rfl
      · rw [show p.names.dropLast ++ [p.name] = p.names from names_parent p hne, hdir]
        rfl
    have hensure : fs.ensureDirectory p = (fs, none) := by
      unfold ensureDirectory
      rw [hthere, (isDirectory_iff hproper h).2 hdir]
      rfl
    rw [makeDirectoriesUp, hp, hensure]

/-- **Writing what stands there already changes nothing.** -/
theorem writeInto_same (hproper : fs.Proper) {p : Path} {content : Bytes} (h : Straight fs p.names)
    (he : fs.entry? p.names = some (.file content)) : fs.writeInto p content = (fs, none) := by
  have hne : p.names ≠ [] := fun hnil => by rw [hnil] at he; cases he
  have hwrite : fs.write p content = .ok fs := by
    unfold write
    rw [locate_of_entry hproper h he]
    dsimp only
    rw [he]
    dsimp only
    rw [put_same hproper.distinct hne he]
  unfold writeInto
  rw [makeDirectories_same hproper (h.before (List.dropLast_prefix _)) (hproper.rooted _ _ he)]
  dsimp only
  rw [hwrite]

end Files
end TagAlias
