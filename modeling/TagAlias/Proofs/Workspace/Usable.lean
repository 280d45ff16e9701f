import TagAlias.Proofs.Workspace.Sources
/-!
# Sources that are none

Discovery looks at the suffix of a candidate before it follows links, and looks whether a file is there only where a scan
path names it.  So what it finds is a file with a known suffix, unless a link leads a candidate astray or a repository
lists what is no file.  Such a candidate is found all the same wherever one that is sound would be (`unusable_iff`).
-/
namespace TagAlias

theorem Path.suffix_congr {p q : Path} (h : p.names = q.names) : p.suffix = q.suffix := by
  rw [Path.suffix, Path.suffix, Path.name, Path.name, h]

namespace Discovery

open Files (Straight)

variable {d : Discovery} {fs : Files} {git : Listing} {p : Path} {cs : List Path}

/-- A file that is there and has a known suffix. -/
def Usable (d : Discovery) (fs : Files) (p : Path) : Prop := fs.isFile p = true ∧ p.suffix ∈ d.suffixes

/-- A candidate with a known suffix leads to a path that is no file with a known suffix. -/
inductive Astray (d : Discovery) (fs : Files) (git : Listing) (p : Path) : Prop where
  /-- A repository lists what is not there, or is a directory. -/
  | listed {q : Path} {text : String} (hrepository : fs.exists_ (d.root.child Project.repositoryName) = true)
      (hgit : git = .lines text) (hlisted : q ∈ d.listed text) (hknown : q.suffix ∈ d.suffixes)
      (hstraight : Straight fs q.names) (hplace : fs.resolve q = .ok p) (hnot : fs.isFile p = false)
  /-- A link leads to what is not there, to a directory, or to a file with another suffix. -/
  | led {q : Path} (hfound : q ∈ d.found fs git) (hknown : q.suffix ∈ d.suffixes) (hled : ¬ Straight fs q.names)
      (hplace : fs.resolve q = .ok p) (hnot : ¬ d.Usable fs p)

/-- Candidates that lead to a path are asked for: there are no scan paths, or one of them names a directory above it. -/
def Wanted (d : Discovery) (fs : Files) (scanPaths : List String) (p : Path) : Prop :=
  scanPaths = [] ∨ ∃ entry ∈ scanPaths, ∃ target, fs.resolve (d.root ++ Path.ofString entry) = .ok target ∧
    fs.isDirectory target = true ∧ target.isAbove p = true

/-- What stands straight where a walk has found it is a file. -/
theorem isFile_of_walk (hproper : fs.Proper) {base q : Path} (hq : q ∈ walk fs base) (hstraight : Straight fs q.names) :
    fs.isFile q = true := by
  obtain ⟨-, -, e, he, hfound⟩ := (mem_walk_iff_found hproper).1 hq
  rw [Files.isFile_iff hproper hstraight]
  cases e with
  | file content => exact ⟨content, he⟩
  | directory => cases hfound
  | link target => exact absurd he (hstraight.unlinked _ target (List.prefix_refl _))

theorem isFile_congr (hproper : fs.Proper) {p q : Path} (h : p.names = q.names) (hstraight : Straight fs q.names) :
    fs.isFile p = true ↔ fs.isFile q = true := by
  rw [Files.isFile_iff hproper hstraight, Files.isFile_iff hproper (h ▸ hstraight), h]

/-- **The candidates that are no files with a known suffix are those that are astray.** -/
theorem unusable_candidate_iff (hproper : fs.Proper) (hcs : d.candidates fs git = .ok cs) :
    p ∈ cs ∧ ¬ d.Usable fs p ↔ d.Astray fs git p := by
  rw [mem_candidates_iff hcs]
  constructor
  · rintro ⟨⟨q, hfound, hknown, hplace⟩, hnot⟩
    by_cases hstraight : Straight fs q.names
    · have hnames : p.names = q.names := by
        rw [Files.resolve_of_straight hstraight] at hplace
        rw [← Except.ok.inj hplace]
        rfl
      have hfile : fs.isFile p = false := Bool.eq_false_iff.2 (fun hfile =>
        hnot ⟨hfile, by rwa [Path.suffix_congr hnames]⟩)
      have hwalk : q ∉ walk fs d.root := fun hq => by
        have hthere := (isFile_congr hproper hnames hstraight).2 (isFile_of_walk hproper hq hstraight)
        rw [hfile] at hthere
        cases hthere
      cases hrepository : fs.exists_ (d.root.child Project.repositoryName) with
      | false =>
        rw [found_of_missing hrepository] at hfound
        exact absurd hfound hwalk
      | true =>
        cases git with
        | unavailable =>
          rw [found_of_unavailable] at hfound
          exact absurd hfound hwalk
        | lines text =>
          rw [found_of_lines hrepository] at hfound
          exact .listed hrepository rfl hfound hknown hstraight hplace hfile
    · exact .led hfound hknown hstraight hplace hnot
  · rintro (⟨hrepository, rfl, hlisted, hknown, -, hplace, hnot⟩ | ⟨hfound, hknown, -, hplace, hnot⟩)
    · refine ⟨⟨_, ?_, hknown, hplace⟩, fun h => ?_⟩
      · rwa [found_of_lines hrepository]
      · rw [Usable, hnot] at h
        cases h.1
    · exact ⟨⟨_, hfound, hknown, hplace⟩, hnot⟩

/-- What is chosen and is no file with a known suffix is a candidate that is asked for. -/
theorem unusable_chosen_iff (hproper : fs.Proper) {scanPaths : List String} (hcs : d.candidates fs git = .ok cs) :
    d.Chosen fs cs scanPaths p ∧ ¬ d.Usable fs p ↔ d.Astray fs git p ∧ d.Wanted fs scanPaths p := by
  rw [← unusable_candidate_iff hproper hcs, and_right_comm]
  refine and_congr_left (fun hnot => ?_)
  unfold Chosen Wanted
  by_cases hempty : scanPaths = []
  · simp [hempty]
  rw [if_neg (by simpa using hempty), or_iff_right hempty]
  have hpicks : ∀ entry target, fs.resolve (d.root ++ Path.ofString entry) = .ok target →
      (d.Picks fs cs target p ↔ p ∈ cs ∧ fs.isDirectory target = true ∧ target.isAbove p = true) := by
    intro entry target htarget
    have hstraight := (Files.straight_of_resolve htarget).2
    rw [Files.isDirectory_iff hproper hstraight]
    constructor
    · rintro (⟨rfl, hmatches, hfile⟩ | ⟨hdir, hmem, habove⟩)
      · exact absurd ⟨(Files.isFile_iff hproper hstraight).2 hfile, matches_iff.1 hmatches⟩ hnot
      · exact ⟨hmem, hdir, habove⟩
    · rintro ⟨hmem, hdir, habove⟩
      exact .inr ⟨hdir, hmem, habove⟩
  constructor
  · rintro ⟨entry, hentry, target, htarget, hpicked⟩
    obtain ⟨hmem, hdir, habove⟩ := (hpicks entry target htarget).1 hpicked
    exact ⟨hmem, entry, hentry, target, htarget, hdir, habove⟩
  · rintro ⟨hmem, entry, hentry, target, htarget, hdir, habove⟩
    exact ⟨entry, hentry, target, htarget, (hpicks entry target htarget).2 ⟨hmem, hdir, habove⟩⟩

/-- **What discovery finds is a file with a known suffix, unless a link leads a candidate astray or a repository lists what
is no file.**  Such a candidate is found if it is asked for. -/
theorem unusable_iff (hproper : fs.Proper) {scanPaths : List String} {ps : List Path}
    (h : d.discover fs git scanPaths = .ok ps) (p : Path) :
    p ∈ ps ∧ ¬ d.Usable fs p ↔ d.Astray fs git p ∧ d.Wanted fs scanPaths p := by
  obtain ⟨cs, xs, hcs, -, rfl, hchosen⟩ := chosen_of_discover hproper h
  rw [Path.mem_sorted_iff, hchosen, unusable_chosen_iff hproper hcs]

/-- A project whose repository lists a file that has been taken away, with a link to a file that is no source. -/
def strayProject : Discovery := .of (.fromRoot ["w"]) []

@[inherit_doc strayProject]
def strayFiles : Files :=
  ⟨[(["w"], .directory), (["w", ".git"], .directory), (["w", "a.js"], .link (Path.ofString "notes.txt")),
    (["w", "b.js"], .file []), (["w", "notes.txt"], .file [])]⟩

theorem unusable_stray : ∃ ps, strayProject.discover strayFiles (.lines "a.js\nb.js\ngone.js\n") [] = .ok ps ∧
    (.fromRoot ["w", "gone.js"] ∈ ps ∧ ¬ strayProject.Usable strayFiles (.fromRoot ["w", "gone.js"])) ∧
    (.fromRoot ["w", "notes.txt"] ∈ ps ∧ ¬ strayProject.Usable strayFiles (.fromRoot ["w", "notes.txt"])) ∧
    ¬ (.fromRoot ["w", "b.js"] ∈ ps ∧ ¬ strayProject.Usable strayFiles (.fromRoot ["w", "b.js"])) := by
  have hproper : strayFiles.Proper := Files.proper_of_entries (by decide +kernel) (by decide +kernel)
  have hrepository : strayFiles.exists_ (strayProject.root.child Project.repositoryName) = true := by decide +kernel
  have hlisted : strayProject.listed "a.js\nb.js\ngone.js\n" =
      [.fromRoot ["w", "a.js"], .fromRoot ["w", "b.js"], .fromRoot ["w", "gone.js"]] := by decide +kernel
  have hcs : strayProject.candidates strayFiles (.lines "a.js\nb.js\ngone.js\n") =
      .ok [.fromRoot ["w", "notes.txt"], .fromRoot ["w", "b.js"], .fromRoot ["w", "gone.js"]] := by decide +kernel
  have hps : strayProject.discover strayFiles (.lines "a.js\nb.js\ngone.js\n") [] =
      .ok (Path.sorted [.fromRoot ["w", "notes.txt"], .fromRoot ["w", "b.js"], .fromRoot ["w", "gone.js"]]) := by
    unfold discover
    rw [hcs]
    rfl
  have hunusable := unusable_iff hproper hps
  have hsource : strayFiles.isFile (.fromRoot ["w", "b.js"]) = true := by decide +kernel
  have hstraight : Straight strayFiles ["w", "gone.js"] := (Files.straight_of_resolve
    (show strayFiles.resolve (.fromRoot ["w", "gone.js"]) = .ok (.fromRoot ["w", "gone.js"]) by decide +kernel)).2
  have hlink : ¬ Straight strayFiles ["w", "a.js"] := fun h =>
    h.unlinked ["w", "a.js"] (Path.ofString "notes.txt") (List.prefix_refl _) (by decide +kernel)
  have hgone : strayProject.Astray strayFiles (.lines "a.js\nb.js\ngone.js\n") (.fromRoot ["w", "gone.js"]) :=
    .listed (q := .fromRoot ["w", "gone.js"]) hrepository rfl (by rw [hlisted]; simp) (by decide +kernel) hstraight
      (by decide +kernel) (by decide +kernel)
  have hled : strayProject.Astray strayFiles (.lines "a.js\nb.js\ngone.js\n") (.fromRoot ["w", "notes.txt"]) :=
    .led (q := .fromRoot ["w", "a.js"]) (by rw [found_of_lines hrepository, hlisted]; simp) (by decide +kernel) hlink
      (by decide +kernel) (fun h => absurd h.2 (by decide +kernel))
  exact ⟨_, hps, (hunusable _).2 ⟨hgone, .inl rfl⟩, (hunusable _).2 ⟨hled, .inl rfl⟩,
    fun h => h.2 ⟨hsource, by decide +kernel⟩⟩

end Discovery
end TagAlias
