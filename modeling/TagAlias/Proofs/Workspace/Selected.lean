import TagAlias.Proofs.Files.Spelled
import TagAlias.Proofs.Workspace.Walked
/-!
# What scan paths select

Scan paths select the sorted union of what each of them selects (`discover_append`), so neither their order nor their
repetition matters (`discover_of_same`).  Without scan paths all sources are found (`discovered_sources`).

A scan path that names a directory selects of the sources below the root those that lie below the directory as well, and
not what a walk from the directory finds.  So it misses all files outside the root, and those below a directory that a
walk from the root does not enter, although each of them is selected if a scan path names it
(`scanned_directory_iff`).
-/
namespace TagAlias

namespace Files

variable {fs : Files}

theorem exists_stepAlong (follow : List String → List String → Except FileFault (List String))
    (h : ∀ names target, fs.entry? names ≠ some (.link target)) : ∀ (rest dir : List String),
    ∃ names, stepAlong fs follow dir rest = .ok names
  | [], dir => ⟨dir, by rw [stepAlong]⟩
  | name :: rest, dir => by
    rw [stepAlong]
    split
    · exact exists_stepAlong follow h rest _
    · split
      · next target hlink => exact absurd hlink (h _ target)
      · exact exists_stepAlong follow h rest _

/-- Where there are no links at all, every path leads somewhere. -/
theorem exists_resolve (h : fs.LinkFree []) (p : Path) : ∃ q, fs.resolve p = .ok q := by
  obtain ⟨names, hnames⟩ := exists_stepAlong (resolveFrom fs linkLimit)
    (fun names target => h names target List.nil_prefix) p.names []
  exact ⟨.fromRoot names, by rw [resolve, resolveFrom, hnames]; rfl⟩

end Files

theorem Path.isAbove_trans {p q r : Path} (h : p.isAbove q = true) (h' : q.isAbove r = true) : p.isAbove r = true := by
  obtain ⟨horigin, hpre, hne⟩ := Path.isAbove_iff.1 h
  obtain ⟨horigin', hpre', -⟩ := Path.isAbove_iff.1 h'
  refine Path.isAbove_iff.2 ⟨horigin.trans horigin', hpre.trans hpre', fun heq => hne ?_⟩
  exact hpre.eq_of_length_le (heq ▸ hpre'.length_le)

namespace Discovery

variable {d : Discovery} {fs : Files} {git : Listing} {target p : Path} {a b scanPaths : List String} {ps : List Path}

/-! ## Unions -/

theorem discover_of_ne_nil (h : a ≠ []) : d.discover fs git a = (do
    let cs ← d.candidates fs git
    let picked ← a.mapM (d.select fs cs)
    return Path.sorted picked.flatten) := by
  unfold discover
  simp only [List.isEmpty_eq_false_iff.2 h, Bool.false_eq_true, if_false]

theorem origin_of_discover (h : d.discover fs git scanPaths = .ok ps) : ∀ p ∈ ps, p.origin = .root := by
  intro p hp
  obtain ⟨_, hplace⟩ := Workspace.resolve_of_discover h p hp
  exact Files.origin_of_resolve hplace

theorem origin_of_picked {cs : List Path} {picked : List (List Path)} (hne : a ≠ []) (hcs : d.candidates fs git = .ok cs)
    (h : a.mapM (d.select fs cs) = .ok picked) : ∀ p ∈ picked.flatten, p.origin = .root := by
  have hdiscover : d.discover fs git a = .ok (Path.sorted picked.flatten) := by
    rw [discover_of_ne_nil hne, hcs]
    dsimp only [bind, Except.bind]
    rw [h]
    rfl
  exact fun p hp => origin_of_discover hdiscover p (Path.mem_sorted_iff.2 hp)

/-- **Two lists of scan paths select the sorted union of what each of them selects.** -/
theorem discover_append (ha : a ≠ []) (hb : b ≠ []) : d.discover fs git (a ++ b) = (do
    let ps ← d.discover fs git a
    let qs ← d.discover fs git b
    return Path.sorted (ps ++ qs)) := by
  rw [discover_of_ne_nil ha, discover_of_ne_nil hb, discover_of_ne_nil (List.append_ne_nil_of_left_ne_nil ha b)]
  cases hcs : d.candidates fs git with
  | error e => rfl
  | ok cs =>
    dsimp only [bind, Except.bind]
    rw [List.mapM_append]
    dsimp only [bind, Except.bind]
    cases hps : a.mapM (d.select fs cs) with
    | error e => rfl
    | ok ps =>
      cases hqs : b.mapM (d.select fs cs) with
      | error e => rfl
      | ok qs =>
        have hunion := Path.sorted_append_sorted (origin_of_picked ha hcs hps) (origin_of_picked hb hcs hqs)
        rw [← List.flatten_append] at hunion
        exact congrArg Except.ok hunion.symm

theorem refusal_of_select {cs : List Path} {entry : String} {e : Refusal} (h : d.select fs cs entry = .error e) :
    e = .linkLoop := by
  unfold select Project.resolve at h
  cases hplace : fs.resolve (d.root ++ Path.ofString entry) with
  | error e' => rw [hplace] at h; cases h; rfl
  | ok target => rw [hplace] at h; cases h

/-- **The order of scan paths and their repetition do not matter.** -/
theorem discover_of_same (h : ∀ entry, entry ∈ a ↔ entry ∈ b) : d.discover fs git a = d.discover fs git b := by
  by_cases ha : a = []
  · have hb : b = [] := List.eq_nil_iff_forall_not_mem.2 (fun entry hentry => by
      rw [← h, ha] at hentry
      exact List.not_mem_nil hentry)
    rw [ha, hb]
  have hb : b ≠ [] := by
    obtain ⟨entry, hentry⟩ := List.exists_mem_of_ne_nil a ha
    exact List.ne_nil_of_mem ((h entry).1 hentry)
  rw [discover_of_ne_nil ha, discover_of_ne_nil hb]
  cases hcs : d.candidates fs git with
  | error e => rfl
  | ok cs =>
    dsimp only [bind, Except.bind]
    cases hps : a.mapM (d.select fs cs) with
    | ok ps =>
      obtain ⟨qs, hqs⟩ := exists_mapM (fun entry hentry => exists_of_mapM hps entry ((h entry).2 hentry))
      have hmem : ∀ p, p ∈ ps.flatten ↔ p ∈ qs.flatten := by
        simp only [List.mem_flatten, mem_mapM_iff hps, mem_mapM_iff hqs, h, implies_true]
      rw [hqs]
      exact congrArg Except.ok (Path.sorted_congr (origin_of_picked ha hcs hps) hmem)
    | error e =>
      obtain ⟨entry, hentry, he⟩ := error_of_mapM hps
      cases hqs : b.mapM (d.select fs cs) with
      | ok qs =>
        obtain ⟨picked, hpicked⟩ := exists_of_mapM hqs entry ((h entry).1 hentry)
        rw [he] at hpicked
        cases hpicked
      | error e' =>
        obtain ⟨_, -, he'⟩ := error_of_mapM hqs
        rw [refusal_of_select he, refusal_of_select he']

theorem exists_discover_of_linkFree (hproper : fs.Proper) (hlinks : fs.LinkFree []) (git : Listing)
    (scanPaths : List String) : ∃ ps, d.discover fs git scanPaths = .ok ps := by
  obtain ⟨cs, hcs⟩ : ∃ cs, d.candidates fs git = .ok cs :=
    exists_candidates_iff.2 (fun q _ _ => Files.exists_resolve hlinks q)
  obtain ⟨xs, hxs, -⟩ := exists_discover hproper hcs (fun entry _ => Files.exists_resolve hlinks _)
  exact ⟨_, hxs⟩

/-! ## All sources -/

/-- A path that file systems can be asked for: they know no null character and no names beyond 255 bytes. -/
def IsAskable (entry : String) : Prop := '\x00' ∉ entry.toList ∧ (Bytes.ofString entry).length ≤ 255

/-- **Discovery without scan paths finds the sources, and scan paths select unions.**  Without links and without a
repository all sources are found, as a walk from directory to directory meets them.  Whatever is found is in order, with
nothing twice. -/
theorem discovered_sources (d : Discovery) (fs : Files) (git : Listing) :
    (fs.Proper → fs.resolve d.root = .ok d.root → fs.LinkFree d.root.names →
      fs.exists_ (d.root.child Project.repositoryName) = false →
      ∃ ps, d.discover fs git [] = .ok ps ∧ (∀ p, p ∈ ps ↔ d.IsSource fs p) ∧
        ps = Path.sorted ((descend fs d.root).filter d.matches_)) ∧
    (fs.Proper → fs.LinkFree [] → ∀ scanPaths, (∀ entry ∈ scanPaths, IsAskable entry) →
      ∃ ps, d.discover fs git scanPaths = .ok ps) ∧
    (∀ scanPaths ps, d.discover fs git scanPaths = .ok ps → ps.Pairwise (fun p q => p.le q = true ∧ p ≠ q)) ∧
    (∀ a b, a ≠ [] → b ≠ [] → d.discover fs git (a ++ b) = (do
      let ps ← d.discover fs git a
      let qs ← d.discover fs git b
      return Path.sorted (ps ++ qs))) ∧
    ∀ a b, (∀ entry, entry ∈ a ↔ entry ∈ b) → d.discover fs git a = d.discover fs git b := by
  refine ⟨fun hproper hroot hlinks hnone => ?_, fun hproper hlinks scanPaths _ =>
    exists_discover_of_linkFree hproper hlinks git scanPaths, fun scanPaths ps h => ?_, fun a b => discover_append,
    fun a b => discover_of_same⟩
  · obtain ⟨cs, hcs, hsources⟩ := candidates_of_walk hproper hroot hlinks hnone git
    have horigin : ∀ c ∈ cs, c.origin = .root := fun c hc =>
      (Path.isAbove_iff.1 ((hsources c).1 hc).below).1.symm.trans (Files.origin_of_resolve hroot)
    refine ⟨Path.sorted cs, by unfold discover; rw [hcs]; rfl, fun p => Path.mem_sorted_iff.trans (hsources p), ?_⟩
    refine Path.sorted_congr horigin (fun c => ?_)
    rw [hsources, isSource_iff hproper (Files.origin_of_resolve hroot) hlinks, List.mem_filter, mem_descend_iff hproper]
  · obtain ⟨xs, rfl⟩ : ∃ xs, ps = Path.sorted xs := by
      unfold discover at h
      obtain ⟨cs, -, h⟩ := exists_of_bind h
      split at h
      · exact ⟨cs, (Except.ok.inj h).symm⟩
      · obtain ⟨picked, -, h⟩ := exists_of_bind h
        exact ⟨_, (Except.ok.inj h).symm⟩
    exact Path.pairwise_sorted (fun p hp => origin_of_discover h p (Path.mem_sorted_iff.2 hp))

/-- A project with hidden files, installed packages and a suffix of its own. -/
def mixedProject : Discovery := .of (.fromRoot ["w"]) [".View"]

@[inherit_doc mixedProject]
def mixedFiles : Files :=
  ⟨[(["w"], .directory), (["w", "a.js"], .file []), (["w", "home.VIEW"], .file []), (["w", "notes.txt"], .file []),
    (["w", ".cache"], .directory), (["w", ".cache", "y.js"], .file []), (["w", "lib"], .directory),
    (["w", "lib", "c.JSX"], .file []), (["w", "lib", "node_modules"], .directory),
    (["w", "lib", "node_modules", "z.js"], .file [])]⟩

theorem proper_mixedFiles : mixedFiles.Proper := Files.proper_of_entries (by decide +kernel) (by decide +kernel)

theorem linkFree_mixedFiles (dir : List String) : mixedFiles.LinkFree dir :=
  Files.linkFree_of_entries (by simp [mixedFiles]) dir

theorem discovered_sources_mixed : ∃ ps, mixedProject.discover mixedFiles .unavailable [] = .ok ps ∧
    (∀ p, p ∈ ps ↔ p = .fromRoot ["w", "a.js"] ∨ p = .fromRoot ["w", "home.VIEW"] ∨ p = .fromRoot ["w", "lib", "c.JSX"]) ∧
    ps.Pairwise (fun p q => p.le q = true ∧ p ≠ q) ∧
    mixedProject.discover mixedFiles .unavailable ["lib", "a.js"] =
      mixedProject.discover mixedFiles .unavailable ["a.js", "lib", "a.js"] := by
  have hroot : mixedFiles.resolve mixedProject.root = .ok mixedProject.root := by decide +kernel
  have hnone : mixedFiles.exists_ (mixedProject.root.child Project.repositoryName) = false := by decide +kernel
  have hwalk : (walk mixedFiles mixedProject.root).filter mixedProject.matches_ =
      [.fromRoot ["w", "a.js"], .fromRoot ["w", "home.VIEW"], .fromRoot ["w", "lib", "c.JSX"]] := by decide +kernel
  obtain ⟨hall, -, hordered, -, hsame⟩ := discovered_sources mixedProject mixedFiles .unavailable
  obtain ⟨ps, hps, hsources, -⟩ := hall proper_mixedFiles hroot (linkFree_mixedFiles _) hnone
  refine ⟨ps, hps, fun p => ?_, hordered _ ps hps, hsame _ _ (fun entry => by grind)⟩
  rw [hsources, isSource_iff proper_mixedFiles (Files.origin_of_resolve hroot) (linkFree_mixedFiles _), ← List.mem_filter, hwalk]
  simp

/-! ## Directories -/

/-- All directories on the way from one to another, the other one included, are entered by a walk. -/
def WayEntered (base target : Path) : Prop :=
  ∀ dir : Path, base.isAbove dir = true → dir = target ∨ dir.isAbove target = true → isEntered dir.name = true

/-- What a walk from a directory finds is a source exactly if it lies below the root and the walk from there gets to the
directory. -/
theorem isSource_of_mem_walk_iff (hproper : fs.Proper) (hlinks : fs.LinkFree d.root.names) (htarget : target.origin = .root)
    (hp : p ∈ walk fs target) (hmatches : d.matches_ p = true) :
    d.IsSource fs p ↔ d.root.isAbove p = true ∧ WayEntered d.root target := by
  obtain ⟨hrooted, hmeets, e, he, hfound⟩ := (mem_walk_iff_found hproper).1 hp
  have horigin : target.origin = p.origin := by rw [htarget, hrooted]; rfl
  obtain ⟨habove, hshown, hentered⟩ := (meets_iff horigin).1 hmeets
  obtain ⟨-, hpre, -⟩ := Path.isAbove_iff.1 habove
  constructor
  · refine fun h => ⟨h.below, fun dir hbase hdir => isEntered_iff.2 (h.entered dir hbase ?_)⟩
    rcases hdir with rfl | hdir
    · exact habove
    · exact Path.isAbove_trans hdir habove
  · rintro ⟨hbelow, hway⟩
    refine ⟨hbelow, ?_, matches_iff.1 hmatches, hshown, fun dir hbase hdir => isEntered_iff.1 ?_⟩
    · cases e with
      | file content => exact ⟨content, he⟩
      | directory => cases hfound
      | link link => exact absurd he (hlinks _ link (Path.isAbove_iff.1 hbelow).2.1)
    · obtain ⟨hdirOrigin, hdirPre, -⟩ := Path.isAbove_iff.1 hdir
      have hsame : dir.origin = target.origin := hdirOrigin.trans horigin.symm
      -- Both the directory and the target stand on the way to the file, so one is on the way to the other.
      by_cases heq : dir = target
      · exact hway dir hbase (.inl heq)
      have hne : dir.names ≠ target.names := fun hnames => heq (Path.eq_of_names hsame hnames)
      rcases List.prefix_or_prefix_of_prefix hdirPre hpre with habove' | hbelow'
      · exact hway dir hbase (.inr (Path.isAbove_iff.2 ⟨hsame, habove', hne⟩))
      · exact hentered dir (Path.isAbove_iff.2 ⟨hsame.symm, hbelow', hne.symm⟩) hdir

/-- **A scan path that names a directory selects the sources below it.**  Of what a walk from the directory finds these are
all files that lie below the root, if the walk from the root gets to the directory, and no others.  Each of them is
selected if a scan path names it. -/
theorem scanned_directory_iff (git : Listing) (hproper : fs.Proper) (hroot : fs.resolve d.root = .ok d.root)
    (hlinks : fs.LinkFree d.root.names) (hnone : fs.exists_ (d.root.child Project.repositoryName) = false)
    {entry : String} (htarget : fs.resolve (d.root ++ Path.ofString entry) = .ok target)
    (hdir : fs.isDirectory target = true) :
    ∃ ps, d.discover fs git [entry] = .ok ps ∧ (∀ p, p ∈ ps ↔ d.IsSource fs p ∧ target.isAbove p = true) ∧
      ∀ p ∈ walk fs target, d.matches_ p = true →
        (p ∈ ps ↔ d.root.isAbove p = true ∧ WayEntered d.root target) ∧
        ∀ name, fs.resolve (d.root ++ Path.ofString name) = .ok p → d.discover fs git [name] = .ok [p] := by
  have htargetOrigin := Files.origin_of_resolve htarget
  have hdirEntry := (Files.isDirectory_iff hproper (Files.straight_of_resolve htarget).2).1 hdir
  obtain ⟨cs, hcs, hsources⟩ := candidates_of_walk hproper hroot hlinks hnone git
  have hscan : ∀ scanned ∈ [entry], ∃ target, fs.resolve (d.root ++ Path.ofString scanned) = .ok target := by
    simpa using ⟨target, htarget⟩
  obtain ⟨xs, hxs, hchosen⟩ := exists_discover hproper hcs hscan
  have hselected : ∀ p, p ∈ Path.sorted xs ↔ d.IsSource fs p ∧ target.isAbove p = true := by
    intro p
    rw [Path.mem_sorted_iff, hchosen, ← hsources]
    simp [Chosen, Picks, htarget, hdirEntry]
  refine ⟨_, hxs, hselected, fun p hp hmatches => ⟨?_, fun name hname => ?_⟩⟩
  · obtain ⟨hrooted, hmeets, -⟩ := (mem_walk_iff_found hproper).1 hp
    have habove := ((meets_iff (by rw [htargetOrigin, hrooted]; rfl)).1 hmeets).1
    rw [hselected, and_iff_left habove, isSource_of_mem_walk_iff hproper hlinks htargetOrigin hp hmatches]
  · obtain ⟨-, -, e, he, hfound⟩ := (mem_walk_iff_found hproper).1 hp
    have hunlinked := (Files.straight_of_resolve hname).2.unlinked p.names
    have hscanned : ∀ scanned ∈ [name], ∃ target, fs.resolve (d.root ++ Path.ofString scanned) = .ok target := by
      simpa using ⟨p, hname⟩
    obtain ⟨ys, hys, hchosen⟩ := exists_discover hproper hcs hscanned
    have hfile : ∃ content, fs.entry? p.names = some (.file content) := by
      cases e with
      | file content => exact ⟨content, he⟩
      | directory => cases hfound
      | link link => exact absurd he (hunlinked link (List.prefix_refl _))
    have hnot : fs.entry? p.names ≠ some .directory := by
      obtain ⟨content, hcontent⟩ := hfile
      simp [hcontent]
    have hmem : ∀ c, c ∈ [p] ↔ c ∈ ys := by
      intro c
      rw [hchosen]
      simp [Chosen, Picks, hname, hmatches, hfile, hnot]
    have hsorted := Path.sorted_congr (fun c hc => by rw [List.mem_singleton.1 hc, Files.origin_of_resolve hname]) hmem
    rw [hys, ← hsorted, Path.sorted_singleton]

/-- A project beside a directory that it shares with others. -/
def sharingFiles : Files :=
  ⟨[(["shared"], .directory), (["shared", "a.js"], .file []), (["w"], .directory), (["w", "b.js"], .file [])]⟩

theorem scanned_directory_shared :
    mixedProject.discover sharingFiles .unavailable ["../shared"] = .ok [] ∧
    .fromRoot ["shared", "a.js"] ∈ walk sharingFiles (.fromRoot ["shared"]) ∧
    mixedProject.discover sharingFiles .unavailable ["../shared/a.js"] = .ok [.fromRoot ["shared", "a.js"]] := by
  have hproper : sharingFiles.Proper := Files.proper_of_entries (by decide +kernel) (by decide +kernel)
  have hlinks : sharingFiles.LinkFree mixedProject.root.names := Files.linkFree_of_entries (by simp [sharingFiles]) _
  have hwalk : walk sharingFiles (.fromRoot ["shared"]) = [.fromRoot ["shared", "a.js"]] := by decide +kernel
  have hsources : (walk sharingFiles mixedProject.root) = [.fromRoot ["w", "b.js"]] := by decide +kernel
  obtain ⟨ps, hps, hselected, hfound⟩ := scanned_directory_iff .unavailable hproper
    (show sharingFiles.resolve mixedProject.root = .ok mixedProject.root by decide +kernel) hlinks (by decide +kernel)
    (show sharingFiles.resolve (mixedProject.root ++ Path.ofString "../shared") = .ok (.fromRoot ["shared"]) by decide +kernel)
    (by decide +kernel)
  have hnil : ps = [] := List.eq_nil_iff_forall_not_mem.2 (fun p hp => by
    obtain ⟨hsource, habove⟩ := (hselected p).1 hp
    obtain ⟨hmem, -⟩ := (isSource_iff hproper rfl hlinks).1 hsource
    rw [hsources, List.mem_singleton] at hmem
    rw [hmem] at habove
    exact absurd habove (by decide +kernel))
  refine ⟨hnil ▸ hps, by rw [hwalk]; simp, (hfound _ (by rw [hwalk]; simp) (by decide +kernel)).2 _ (by decide +kernel)⟩

end Discovery
end TagAlias
