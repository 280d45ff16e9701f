import TagAlias.Proofs.Files.Proper
import TagAlias.Proofs.Workspace.Contained
/-!
# Sources that stay

When things are put below a directory, the way to it being made where it is missing, discovery finds what it found before,
but for what lies below the directory (`candidates_congr`, `picks_congr`).  It is the same list, once that is left out
(`discover_congr`).  What a repository lists need not be there.  Such a file may be picked for the first time when the
directory that a scan path names is made, and a path that is listed may itself become a directory, so neither may be on the
way to the directory where that is still to be made (`Steady`).
-/
namespace TagAlias

namespace Files

variable {fs fs' : Files} {dir names : List String}

/-- Things have been put below a directory, and directories on the way to it may be new.  All else is as before. -/
structure Fills (dir : List String) (fs fs' : Files) : Prop where
  sameLinks : SameLinks fs fs'
  stays : Stays fs fs'
  elsewhere : ∀ names, (dir <+: names → names = dir) → fs'.entry? names = fs.entry? names ∨
    (fs.entry? names = none ∧ fs'.entry? names = some .directory ∧ names <+: dir)

theorem Proper.entry_ne_none (h : fs.Proper) {e : Entry} (he : fs.entry? names = some e) {before : List String}
    (hpre : before <+: names) : fs.entry? before ≠ none := by
  by_cases heq : before = names
  · rw [heq, he]; simp
  · rw [h.above he hpre heq]; simp

/-- What stands above a place that is not below the directory is as before, or is a directory that is new. -/
theorem Fills.entry_before (h : Fills dir fs fs') (hnot : dir <+: names → names = dir) {before : List String}
    (hpre : before <+: names) : fs'.entry? before = fs.entry? before ∨
      (fs.entry? before = none ∧ fs'.entry? before = some .directory ∧ before <+: dir) := by
  refine h.elsewhere before (fun hdir => ?_)
  have heq := hnot (hdir.trans hpre)
  rw [heq] at hpre
  exact hpre.eq_of_length_le hdir.length_le

theorem LinkFree.congr (h : fs.LinkFree dir) (hlinks : SameLinks fs fs') : fs'.LinkFree dir :=
  fun names target hpre hlink => h names target hpre ((hlinks names target).1 hlink)

theorem linkFree_of_entries (h : ∀ x ∈ fs.entries, ∀ target, x.2 ≠ .link target) (dir : List String) : fs.LinkFree dir := by
  intro names target _ hlink
  have hne : names ≠ [] := fun hnil => by rw [hnil] at hlink; cases hlink
  rw [entry_of_ne_nil hne] at hlink
  exact h _ (mem_of_lookup hlink) target rfl

theorem Straight.congr (h : Straight fs names) (hlinks : SameLinks fs fs') : Straight fs' names :=
  ⟨h.plain, fun before target hpre hlink => h.unlinked before target hpre ((hlinks before target).1 hlink)⟩

/-- **What is read is as before**, also where nothing is there, if that does not become a directory. -/
theorem Fills.read_same (h : Fills dir fs fs') (hproper : fs.Proper) (hproper' : fs'.Proper) {p : Path}
    (hstraight : Straight fs p.names) (hnot : dir <+: p.names → p.names = dir)
    (hself : p.names <+: dir → fs.entry? p.names ≠ none) : fs'.read p = fs.read p := by
  have hbefore := fun before (hpre : before <+: p.names) => h.entry_before hnot hpre
  cases hentry : fs.entry? p.names with
  | some e =>
    refine read_congr hstraight (fun before hpre => (hbefore before hpre).resolve_right (fun hnew => ?_))
    exact hproper.entry_ne_none hentry hpre hnew.1
  | none =>
    have hentry' : fs'.entry? p.names = none :=
      ((hbefore _ (List.prefix_refl _)).resolve_right (fun hnew => hself hnew.2.2 hentry)).trans hentry
    have hstraight' : Straight fs' p.names := hstraight.congr h.sameLinks
    obtain ⟨hbelow, hmissing⟩ := find_of_gone hproper hstraight hentry
    obtain ⟨hbelow', hmissing'⟩ := find_of_gone hproper' hstraight' hentry'
    rw [read, read]
    by_cases hfile : ∃ before content, before <+: p.names ∧ fs.entry? before = some (.file content)
    · obtain ⟨before, content, hpre, hcontent⟩ := hfile
      obtain ⟨content', hcontent'⟩ := h.stays.file before content hcontent
      rw [hbelow ⟨before, content, hpre, hcontent⟩, hbelow' ⟨before, content', hpre, hcontent'⟩]
    · have hnone : ∀ before content, before <+: p.names → fs.entry? before ≠ some (.file content) :=
        fun before content hpre hcontent => hfile ⟨before, content, hpre, hcontent⟩
      have hnone' : ∀ before content, before <+: p.names → fs'.entry? before ≠ some (.file content) := by
        intro before content hpre hcontent
        rcases hbefore before hpre with hsame | ⟨-, hdir, -⟩
        · exact hnone before content hpre (by rw [← hsame, hcontent])
        · rw [hdir] at hcontent; cases hcontent
      rw [hmissing hnone, hmissing' hnone']

/-- What stands below a place without links is straight away from it. -/
theorem Proper.straight (hproper : fs.Proper) (h : Straight fs dir) (hlinks : fs.LinkFree dir) (hpre : dir <+: names)
    {e : Entry} (he : fs.entry? names = some e) : Straight fs names := by
  refine ⟨hproper.plain names e he, fun before target hbefore => ?_⟩
  rcases List.prefix_or_prefix_of_prefix hbefore hpre with habove | hbelow
  · exact h.unlinked before target habove
  · exact hlinks before target hbelow

theorem project_resolve_iff {p q : Path} : Project.resolve fs p = .ok q ↔ fs.resolve p = .ok q := by
  refine ⟨Workspace.resolve_of_project, fun h => ?_⟩
  rw [Project.resolve, h]
  rfl

end Files

theorem Path.isAbove_iff {p q : Path} : p.isAbove q = true ↔ p.origin = q.origin ∧ p.names <+: q.names ∧ p.names ≠ q.names := by
  simp [Path.isAbove, List.isPrefixOf_iff_prefix, and_assoc]

theorem Path.isAbove_eq_false_iff {p q : Path} (h : p.origin = q.origin) :
    p.isAbove q = false ↔ (p.names <+: q.names → q.names = p.names) := by
  rw [Path.isAbove, h, ← List.isPrefixOf_iff_prefix]
  cases p.names.isPrefixOf q.names with
  | true => simpa using eq_comm
  | false => simp

namespace Discovery

open Files (Fills LinkFree Straight)

variable {d : Discovery} {fs fs' : Files} {git git' : Listing} {out : Path} {cs cs' : List Path} {target c : Path}

/-- What becomes a directory on the way to another makes no difference to a path: neither is it the path, nor does a scan path
lead from there to the path. -/
structure Steady (d : Discovery) (fs : Files) (scanPaths : List String) (out c : Path) : Prop where
  self : c.names <+: out.names → fs.entry? c.names ≠ none
  scanned : ∀ entry ∈ scanPaths, ∀ target, fs.resolve (d.root ++ Path.ofString entry) = .ok target →
    target.names <+: out.names → target.names <+: c.names → fs.entry? target.names ≠ none

theorem steady_of_entry (hproper : fs.Proper) {e : Entry} (h : fs.entry? c.names = some e) (scanPaths : List String) :
    d.Steady fs scanPaths out c where
  self _ := hproper.entry_ne_none h (List.prefix_refl _)
  scanned _ _ _ _ _ hpre := hproper.entry_ne_none h hpre

/-! ## Candidates -/

theorem found_of_missing (h : fs.exists_ (d.root.child Project.repositoryName) = false) :
    d.found fs git = walk fs d.root := by
  simp [found, h]

theorem found_of_lines (h : fs.exists_ (d.root.child Project.repositoryName) = true) (text : String) :
    d.found fs (.lines text) = d.listed text := by
  simp [found, h]

theorem found_of_unavailable : d.found fs .unavailable = walk fs d.root := by
  simp [found]

theorem matches_iff {p : Path} : d.matches_ p = true ↔ p.suffix ∈ d.suffixes := List.contains_iff_mem

/-- **There are candidates exactly if all that is found with a known suffix leads somewhere.** -/
theorem exists_candidates_iff : (∃ cs, d.candidates fs git = .ok cs) ↔
    ∀ q ∈ d.found fs git, q.suffix ∈ d.suffixes → ∃ s, fs.resolve q = .ok s := by
  constructor
  · rintro ⟨cs, hcs⟩ q hq hknown
    obtain ⟨s, hs⟩ := exists_of_mapM hcs q (List.mem_filter.2 ⟨hq, matches_iff.2 hknown⟩)
    exact ⟨s, Files.project_resolve_iff.1 hs⟩
  · refine fun h => exists_mapM (fun q hq => ?_)
    obtain ⟨hfound, hmatches⟩ := List.mem_filter.1 hq
    obtain ⟨s, hs⟩ := h q hfound (matches_iff.1 hmatches)
    exact ⟨s, Files.project_resolve_iff.2 hs⟩

/-- **The candidates are the places that what is found with a known suffix leads to.** -/
theorem mem_candidates_iff (hcs : d.candidates fs git = .ok cs) (c : Path) :
    c ∈ cs ↔ ∃ q ∈ d.found fs git, q.suffix ∈ d.suffixes ∧ fs.resolve q = .ok c := by
  rw [mem_mapM_iff hcs]
  simp only [List.mem_filter, matches_iff, Files.project_resolve_iff, and_assoc]

/-- Two lists of paths have the same in them, but for paths that lead below a directory. -/
def Alike (fs : Files) (out : Path) (found found' : List Path) : Prop :=
  ∀ q, (∀ s, fs.resolve q = .ok s → out.isAbove s = false) → (q ∈ found ↔ q ∈ found')

/-- A walk from a directory meets a file of these names. -/
def Meets (base names : List String) : Prop :=
  base <+: names ∧ names.drop base.length ≠ [] ∧ (names.drop base.length).dropLast.all isEntered = true ∧
    (names.drop base.length).getLast?.any isHidden = false

/-- **A walk finds what it meets and counts as a file.** -/
theorem mem_walk_iff_found (hproper : fs.Proper) {base q : Path} :
    q ∈ walk fs base ↔ q = .fromRoot q.names ∧ Meets base.names q.names ∧
      ∃ e, fs.entry? q.names = some e ∧ isFound fs q.names e = true := by
  unfold walk
  rw [List.mem_filterMap]
  constructor
  · rintro ⟨⟨names, e⟩, hmem, h⟩
    dsimp only at h
    split at h
    · next hcond =>
      cases h
      simp only [Bool.and_eq_true, List.isPrefixOf_iff_prefix, Bool.not_eq_true', List.isEmpty_eq_false_iff] at hcond
      obtain ⟨⟨⟨⟨hpre, hne⟩, hentered⟩, hhidden⟩, hfound⟩ := hcond
      have hnil : names ≠ [] := fun hnil => hne (by rw [hnil, List.drop_nil])
      have hentry : fs.entry? names = some e :=
        (Files.entry_of_ne_nil hnil fs).trans (lookup_of_mem_nodup hproper.distinct hmem)
      exact ⟨rfl, ⟨hpre, hne, hentered, hhidden⟩, e, hentry, hfound⟩
    · cases h
  · rintro ⟨hq, ⟨hpre, hne, hentered, hhidden⟩, e, hentry, hfound⟩
    have hnil : q.names ≠ [] := fun hnil => hne (by rw [hnil, List.drop_nil])
    rw [Files.entry_of_ne_nil hnil] at hentry
    refine ⟨(q.names, e), mem_of_lookup hentry, ?_⟩
    dsimp only
    rw [if_pos, ← hq]
    simp only [Bool.and_eq_true, List.isPrefixOf_iff_prefix, Bool.not_eq_true', List.isEmpty_eq_false_iff]
    exact ⟨⟨⟨⟨hpre, hne⟩, hentered⟩, hhidden⟩, hfound⟩

/-- **Where there are no links a walk finds the files that it meets.** -/
theorem mem_walk_iff (hproper : fs.Proper) {base q : Path} (hlinks : fs.LinkFree base.names) :
    q ∈ walk fs base ↔ q = .fromRoot q.names ∧ Meets base.names q.names ∧
      ∃ content, fs.entry? q.names = some (.file content) := by
  rw [mem_walk_iff_found hproper]
  refine and_congr_right (fun _ => and_congr_right (fun hmeets => ⟨?_, fun ⟨content, hfile⟩ => ⟨_, hfile, rfl⟩⟩))
  rintro ⟨e, hentry, hfound⟩
  cases e with
  | file content => exact ⟨content, hentry⟩
  | directory => cases hfound
  | link target => exact absurd hentry (hlinks _ target hmeets.1)

/-- A walk finds the same files as before, but for those that have been put below a directory. -/
theorem walk_alike (hproper : fs.Proper) (hproper' : fs'.Proper) (hfills : Fills out.names fs fs') (hout : out.origin = .root)
    {base : Path} (hbase : Straight fs base.names) (hlinks : fs.LinkFree base.names) :
    Alike fs out (walk fs base) (walk fs' base) := by
  intro q hnot
  have hlinks' := hlinks.congr hfills.sameLinks
  rw [mem_walk_iff hproper hlinks, mem_walk_iff hproper' hlinks']
  refine and_congr_right (fun hq => and_congr_right (fun hmeets => ⟨fun ⟨content, hfile⟩ => ?_, fun ⟨content, hfile⟩ => ?_⟩))
  · exact hfills.stays.file _ content hfile
  · have hstraight' := hproper'.straight (hbase.congr hfills.sameLinks) hlinks' hmeets.1 hfile
    have hplace : fs.resolve q = .ok q := by
      rw [← Files.resolve_congr hfills.sameLinks, Files.resolve_of_straight hstraight', ← hq]
    have horigin : out.origin = q.origin := by rw [hout, hq]; rfl
    rcases hfills.elsewhere q.names ((Path.isAbove_eq_false_iff horigin).1 (hnot q hplace)) with hsame | ⟨-, hdir, -⟩
    · exact ⟨content, by rw [← hsame, hfile]⟩
    · rw [hfile] at hdir; cases hdir

/-- **The candidates are as before, but for those below a directory**, if what is found is. -/
theorem candidates_congr (hlinks : Files.SameLinks fs fs') (hcs : d.candidates fs git = .ok cs)
    (halike : Alike fs out (d.found fs git) (d.found fs' git')) :
    ∃ cs', d.candidates fs' git' = .ok cs' ∧ ∀ c, out.isAbove c = false → (c ∈ cs ↔ c ∈ cs') := by
  have hresolve := Files.resolve_congr hlinks
  obtain ⟨cs', hcs'⟩ : ∃ cs', d.candidates fs' git' = .ok cs' := by
    refine exists_candidates_iff.2 (fun q hfound hknown => ?_)
    rw [hresolve]
    cases hplace : fs.resolve q with
    | ok s => exact ⟨s, rfl⟩
    | error e =>
      have hbefore : q ∈ d.found fs git := (halike q (fun s hs => by rw [hplace] at hs; cases hs)).2 hfound
      rw [← hplace]
      exact exists_candidates_iff.1 ⟨cs, hcs⟩ q hbefore hknown
  refine ⟨cs', hcs', fun c hc => ?_⟩
  have hfound : ∀ q, fs.resolve q = .ok c → (q ∈ d.found fs git ↔ q ∈ d.found fs' git') := by
    refine fun q hq => halike q (fun s hs => ?_)
    rw [hs] at hq
    rwa [Except.ok.inj hq]
  rw [mem_candidates_iff hcs, mem_candidates_iff hcs']
  simp only [hresolve]
  exact exists_congr (fun q => and_congr_left (fun h => hfound q h.2))

/-! ## Selection -/

/-- A scan path that leads to a target picks a path. -/
def Picks (d : Discovery) (fs : Files) (cs : List Path) (target c : Path) : Prop :=
  (c = target ∧ d.matches_ target = true ∧ ∃ content, fs.entry? target.names = some (.file content)) ∨
    (fs.entry? target.names = some .directory ∧ c ∈ cs ∧ target.isAbove c = true)

theorem select_of_resolve (hproper : fs.Proper) (cs : List Path) {entry : String}
    (h : fs.resolve (d.root ++ Path.ofString entry) = .ok target) :
    ∃ picked, d.select fs cs entry = .ok picked ∧ ∀ c, c ∈ picked ↔ d.Picks fs cs target c := by
  have hstraight := (Files.straight_of_resolve h).2
  unfold select
  rw [Files.project_resolve_iff.2 h]
  refine ⟨_, rfl, fun c => ?_⟩
  unfold Picks
  rw [← Files.isFile_iff hproper hstraight, ← Files.isDirectory_iff hproper hstraight]
  have hexclusive : fs.isFile target = true → fs.isDirectory target = false := by
    rw [Files.isFile_iff hproper hstraight, Bool.eq_false_iff, ne_eq, Files.isDirectory_iff hproper hstraight]
    rintro ⟨content, hfile⟩ hdir
    rw [hfile] at hdir
    cases hdir
  dsimp only
  split
  · next hfile => cases hmatches : d.matches_ target <;> simp [hexclusive hfile, hfile]
  · next hfile =>
    split
    · next hdir => simp [hfile, hdir, List.mem_filter]
    · next hdir => simp [hfile, hdir]

/-- **What a scan path picks is as before, but for what lies below a directory**, if the path does not lead where the way to
that is still to be made. -/
theorem picks_congr (hfills : Fills out.names fs fs') (hc : out.isAbove c = false) (hcs : c ∈ cs ↔ c ∈ cs')
    (htarget : target.origin = out.origin) (hoff : c ∈ cs → c.origin = out.origin ∧
      (target.names <+: out.names → target.names <+: c.names → fs.entry? target.names ≠ none)) :
    d.Picks fs cs target c ↔ d.Picks fs' cs' target c := by
  constructor
  · rintro (⟨heq, hmatches, content, hfile⟩ | ⟨hdir, hmem, habove⟩)
    · exact .inl ⟨heq, hmatches, hfills.stays.file _ content hfile⟩
    · exact .inr ⟨hfills.stays.directory _ hdir, hcs.1 hmem, habove⟩
  · rintro (⟨heq, hmatches, content, hfile⟩ | ⟨hdir, hmem, habove⟩)
    · rw [heq, Path.isAbove_eq_false_iff htarget.symm] at hc
      rcases hfills.elsewhere _ hc with hsame | ⟨-, hdir, -⟩
      · exact .inl ⟨heq, hmatches, content, by rw [← hsame, hfile]⟩
      · rw [hfile] at hdir; cases hdir
    · obtain ⟨horigin, hthere⟩ := hoff (hcs.2 hmem)
      rw [Path.isAbove_eq_false_iff horigin.symm] at hc
      obtain ⟨-, hpre, hne⟩ := Path.isAbove_iff.1 habove
      have hnot : out.names <+: target.names → target.names = out.names := fun hout => by
        have heq := hc (hout.trans hpre)
        rw [heq] at hpre
        exact hpre.eq_of_length_le hout.length_le
      rcases hfills.elsewhere _ hnot with hsame | ⟨hnone, -, hway⟩
      · exact .inr ⟨by rw [← hsame, hdir], hcs.2 hmem, habove⟩
      -- The directory is new, and what lies below it can only be listed.
      · exact absurd hnone (hthere hway hpre)

/-! ## Discovery -/

def Chosen (d : Discovery) (fs : Files) (cs : List Path) (scanPaths : List String) (c : Path) : Prop :=
  if scanPaths.isEmpty then c ∈ cs
  else ∃ entry ∈ scanPaths, ∃ target, fs.resolve (d.root ++ Path.ofString entry) = .ok target ∧ d.Picks fs cs target c

theorem exists_discover (hproper : fs.Proper) {scanPaths : List String} (hcs : d.candidates fs git = .ok cs)
    (hscan : ∀ entry ∈ scanPaths, ∃ target, fs.resolve (d.root ++ Path.ofString entry) = .ok target) :
    ∃ xs, d.discover fs git scanPaths = .ok (Path.sorted xs) ∧ ∀ c, c ∈ xs ↔ d.Chosen fs cs scanPaths c := by
  unfold discover Chosen
  rw [hcs]
  cases hempty : scanPaths.isEmpty with
  | true => exact ⟨cs, rfl, fun c => Iff.rfl⟩
  | false =>
    have hselect : ∀ entry ∈ scanPaths, ∃ picked, d.select fs cs entry = .ok picked := fun entry hentry =>
      have ⟨_, htarget⟩ := hscan entry hentry
      have ⟨picked, hpicked, _⟩ := select_of_resolve hproper cs htarget
      ⟨picked, hpicked⟩
    obtain ⟨selected, hselected⟩ := exists_mapM hselect
    refine ⟨selected.flatten, ?_, fun c => ?_⟩
    · change (scanPaths.mapM (d.select fs cs) >>= fun sel => .ok (Path.sorted sel.flatten)) = _
      rw [hselected]
      rfl
    rw [if_neg Bool.false_ne_true, List.mem_flatten]
    constructor
    · rintro ⟨picked, hmem, hc⟩
      obtain ⟨entry, hentry, hpicked⟩ := (mem_mapM_iff hselected picked).1 hmem
      obtain ⟨target, htarget⟩ := hscan entry hentry
      obtain ⟨picked', hpicked', hpicks⟩ := select_of_resolve hproper cs htarget
      rw [hpicked] at hpicked'
      exact ⟨entry, hentry, target, htarget, (hpicks c).1 (Except.ok.inj hpicked' ▸ hc)⟩
    · rintro ⟨entry, hentry, target, htarget, hc⟩
      obtain ⟨picked, hpicked, hpicks⟩ := select_of_resolve hproper cs htarget
      exact ⟨picked, (mem_mapM_iff hselected picked).2 ⟨entry, hentry, hpicked⟩, (hpicks c).2 hc⟩

theorem chosen_of_discover (hproper : fs.Proper) {scanPaths : List String} {ps : List Path}
    (h : d.discover fs git scanPaths = .ok ps) : ∃ cs xs, d.candidates fs git = .ok cs ∧
      (∀ entry ∈ scanPaths, ∃ target, fs.resolve (d.root ++ Path.ofString entry) = .ok target) ∧
      ps = Path.sorted xs ∧ ∀ c, c ∈ xs ↔ d.Chosen fs cs scanPaths c := by
  obtain ⟨cs, hcs, hscan⟩ : ∃ cs, d.candidates fs git = .ok cs ∧
      ∀ entry ∈ scanPaths, ∃ target, fs.resolve (d.root ++ Path.ofString entry) = .ok target := by
    unfold discover at h
    obtain ⟨cs, hcs, h⟩ := exists_of_bind h
    refine ⟨cs, hcs, fun entry hentry => ?_⟩
    split at h
    · next hempty => rw [List.isEmpty_iff.1 hempty] at hentry; cases hentry
    · obtain ⟨selected, hselected, -⟩ := exists_of_bind h
      obtain ⟨picked, hpicked⟩ := exists_of_mapM hselected entry hentry
      unfold select at hpicked
      cases hplace : Project.resolve fs (d.root ++ Path.ofString entry) with
      | error e => rw [hplace] at hpicked; cases hpicked
      | ok target => exact ⟨target, Files.project_resolve_iff.1 hplace⟩
  obtain ⟨xs, hxs, hchosen⟩ := exists_discover hproper hcs hscan
  rw [h] at hxs
  exact ⟨cs, xs, hcs, hscan, Except.ok.inj hxs, hchosen⟩

/-- Candidates are places without links, and steady if all that is found is. -/
theorem steady_of_candidates (hcs : d.candidates fs git = .ok cs) {scanPaths : List String}
    (hoff : ∀ q ∈ d.found fs git, d.matches_ q = true → ∀ s, fs.resolve q = .ok s → out.isAbove s = false →
      d.Steady fs scanPaths out s) :
    ∀ c ∈ cs, c.origin = .root ∧ (out.isAbove c = false → d.Steady fs scanPaths out c) := by
  intro c hc
  obtain ⟨q, hfound, hknown, hplace⟩ := (mem_candidates_iff hcs c).1 hc
  exact ⟨Files.origin_of_resolve hplace, hoff q hfound (matches_iff.2 hknown) c hplace⟩

theorem steady_of_chosen (hproper : fs.Proper) {scanPaths : List String}
    (hcs : ∀ c ∈ cs, c.origin = .root ∧ (out.isAbove c = false → d.Steady fs scanPaths out c))
    (h : d.Chosen fs cs scanPaths c) : c.origin = .root ∧ (out.isAbove c = false → d.Steady fs scanPaths out c) := by
  unfold Chosen at h
  split at h
  · exact hcs c h
  · obtain ⟨entry, -, target, htarget, ⟨rfl, -, content, hfile⟩ | ⟨-, hmem, -⟩⟩ := h
    · exact ⟨Files.origin_of_resolve htarget, fun _ => steady_of_entry hproper hfile scanPaths⟩
    · exact hcs c hmem

/-- **Discovery finds the same list again, once what lies below the directory is left out.** -/
theorem discover_congr (hproper : fs.Proper) (hproper' : fs'.Proper) (hfills : Fills out.names fs fs')
    (hout : out.origin = .root) {scanPaths : List String} {ps : List Path} (h : d.discover fs git scanPaths = .ok ps)
    (halike : Alike fs out (d.found fs git) (d.found fs' git'))
    (hoff : ∀ q ∈ d.found fs git, d.matches_ q = true → ∀ s, fs.resolve q = .ok s → out.isAbove s = false →
      d.Steady fs scanPaths out s) :
    (∃ ps', d.discover fs' git' scanPaths = .ok ps' ∧
      ps'.filter (fun p => !out.isAbove p) = ps.filter (fun p => !out.isAbove p)) ∧
    ∀ p ∈ ps, out.isAbove p = false → d.Steady fs scanPaths out p := by
  have hresolve := Files.resolve_congr hfills.sameLinks
  obtain ⟨cs, xs, hcs, hscan, rfl, hxs⟩ := chosen_of_discover hproper h
  have hcandidates := steady_of_candidates hcs hoff
  obtain ⟨cs', hcs', hsame⟩ := candidates_congr hfills.sameLinks hcs halike
  have hscan' : ∀ entry ∈ scanPaths, ∃ target, fs'.resolve (d.root ++ Path.ofString entry) = .ok target :=
    fun entry hentry =>
      have ⟨target, htarget⟩ := hscan entry hentry
      ⟨target, by rw [hresolve, htarget]⟩
  obtain ⟨xs', hdiscover', hxs'⟩ := exists_discover hproper' hcs' hscan'
  have hchosen : ∀ c, out.isAbove c = false → (c ∈ xs ↔ c ∈ xs') := by
    intro c hc
    rw [hxs, hxs']
    unfold Chosen
    split
    · exact hsame c hc
    · refine exists_congr (fun entry => and_congr_right (fun hentry => exists_congr (fun target => ?_)))
      rw [hresolve]
      refine and_congr_right (fun htarget => picks_congr hfills hc (hsame c hc)
        ((Files.origin_of_resolve htarget).trans hout.symm) (fun hmem => ?_))
      exact ⟨(hcandidates c hmem).1.trans hout.symm, ((hcandidates c hmem).2 hc).scanned entry hentry target htarget⟩
  have horigin : ∀ c ∈ xs, c.origin = .root := fun c hc => (steady_of_chosen hproper hcandidates ((hxs c).1 hc)).1
  have horigin' : ∀ c ∈ xs', c.origin = .root := by
    intro c hc
    obtain ⟨_, hplace⟩ := Workspace.resolve_of_discover hdiscover' c (Path.mem_sorted_iff.2 hc)
    exact Files.origin_of_resolve hplace
  refine ⟨⟨_, hdiscover', Path.filter_sorted_congr horigin' horigin (fun p hp => ?_)⟩, fun p hp hnot => ?_⟩
  · exact (hchosen p (by simpa using hp)).symm
  · exact (steady_of_chosen hproper hcandidates ((hxs p).1 (Path.mem_sorted_iff.1 hp))).2 hnot

end Discovery
end TagAlias
