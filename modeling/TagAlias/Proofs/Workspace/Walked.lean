import Mathlib.Data.List.MinMax
import TagAlias.Proofs.Workspace.Sources
/-!
# Walks, directory by directory

A walk goes from a directory into those in it that are neither hidden nor hold installed packages, and so on down
(`descend`).  All in all it finds what a walk is said to find (`mem_descend_iff`): what lies below the directory and is not
hidden, with no directory on the way to it that is not entered (`meets_iff`).  Below the root of a project without links
these are its sources, once files without a known suffix are left out (`candidates_of_walk`).
-/
namespace TagAlias

namespace Files

variable {fs : Files} {dir : List String} {name : String}

theorem mem_namesIn_iff (hproper : fs.Proper) : name ∈ fs.namesIn dir ↔ ∃ e, fs.entry? (dir ++ [name]) = some e := by
  have hne : dir ++ [name] ≠ [] := by simp
  unfold namesIn
  rw [List.mem_filterMap, entry_of_ne_nil hne]
  constructor
  · rintro ⟨⟨names, e⟩, hmem, h⟩
    dsimp only at h
    split at h
    · next hcond =>
      simp only [Bool.and_eq_true, beq_iff_eq, Bool.not_eq_true', List.isEmpty_eq_false_iff] at hcond
      obtain ⟨hdir, hnil⟩ := hcond
      rw [List.getLast?_eq_some_getLast hnil, Option.some.injEq] at h
      rw [← hdir, ← h, List.dropLast_concat_getLast hnil]
      exact ⟨e, lookup_of_mem_nodup hproper.distinct hmem⟩
    · cases h
  · rintro ⟨e, he⟩
    exact ⟨(dir ++ [name], e), mem_of_lookup he, by simp⟩

/-- How many names the longest way has to what stands somewhere. -/
def depth (fs : Files) : Nat := (fs.entries.map (·.1.length)).foldr max 0

theorem length_le_depth {names : List String} {e : Entry} (h : fs.entry? names = some e) : names.length ≤ fs.depth := by
  by_cases hnil : names = []
  · rw [hnil]; exact Nat.zero_le _
  · rw [entry_of_ne_nil hnil] at h
    exact List.le_max_of_le' 0 (List.mem_map.2 ⟨_, mem_of_lookup h, rfl⟩) (Nat.le_refl _)

end Files

namespace Discovery

variable {d : Discovery} {fs : Files} {git : Listing} {base p : Path} {dir : List String}

/-! ## From one directory into the next -/

/-- The files that a walk finds in a directory and, at most so many levels down, below it. -/
def descendFrom (fs : Files) : Nat → List String → List Path
  | 0, _ => []
  | levels + 1, dir =>
    (fs.namesIn dir).flatMap (fun name =>
      match fs.entry? (dir ++ [name]) with
      | none => []
      | some .directory => if isEntered name then descendFrom fs levels (dir ++ [name]) else []
      | some e => if !isHidden name && isFound fs (dir ++ [name]) e then [.fromRoot (dir ++ [name])] else [])

/-- The files that a walk finds which goes from a directory into those in it. -/
def descend (fs : Files) (base : Path) : List Path := descendFrom fs fs.depth base.names

/-- A way down from a directory on which a walk finds something. -/
structure FoundAlong (fs : Files) (dir rest : List String) : Prop where
  ne_nil : rest ≠ []
  entered : rest.dropLast.all isEntered = true
  shown : rest.getLast?.any isHidden = false
  found : ∃ e, fs.entry? (dir ++ rest) = some e ∧ isFound fs (dir ++ rest) e = true

theorem foundAlong_singleton_iff {name : String} : FoundAlong fs dir [name] ↔
    isHidden name = false ∧ ∃ e, fs.entry? (dir ++ [name]) = some e ∧ isFound fs (dir ++ [name]) e = true :=
  ⟨fun h => ⟨by simpa using h.shown, h.found⟩, fun h => ⟨by simp, rfl, by simpa using h.1, h.2⟩⟩

theorem foundAlong_cons_iff {name : String} {rest : List String} (hne : rest ≠ []) :
    FoundAlong fs dir (name :: rest) ↔ isEntered name = true ∧ FoundAlong fs (dir ++ [name]) rest := by
  obtain ⟨next, rest, rfl⟩ := List.exists_cons_of_ne_nil hne
  constructor
  · intro h
    have hentered := h.entered
    rw [List.dropLast_cons_cons, List.all_cons, Bool.and_eq_true] at hentered
    exact ⟨hentered.1, ⟨hne, hentered.2, by simpa using h.shown, by simpa using h.found⟩⟩
  · rintro ⟨hname, h⟩
    refine ⟨by simp, ?_, by simpa using h.shown, by simpa using h.found⟩
    rw [List.dropLast_cons_cons, List.all_cons, Bool.and_eq_true]
    exact ⟨hname, h.entered⟩

/-- One step down: what is found through a name is there itself, or is found from the directory of this name. -/
theorem foundAlong_cons {name : String} {rest : List String} (hproper : fs.Proper) :
    FoundAlong fs dir (name :: rest) ↔
      (rest = [] ∧ isHidden name = false ∧ ∃ e, fs.entry? (dir ++ [name]) = some e ∧ isFound fs (dir ++ [name]) e = true) ∨
      (fs.entry? (dir ++ [name]) = some .directory ∧ isEntered name = true ∧ FoundAlong fs (dir ++ [name]) rest) := by
  by_cases hrest : rest = []
  · subst hrest
    rw [foundAlong_singleton_iff]
    exact ⟨fun h => .inl ⟨rfl, h⟩, fun h => h.elim And.right (fun h => absurd rfl h.2.2.ne_nil)⟩
  · rw [foundAlong_cons_iff hrest]
    constructor
    · rintro ⟨hname, h⟩
      obtain ⟨e, he, -⟩ := h.found
      exact .inr ⟨hproper.above he (List.prefix_append _ _) (by simpa using hrest), hname, h⟩
    · rintro (⟨hnil, -⟩ | ⟨-, h⟩)
      · exact absurd hnil hrest
      · exact h

/-- **A walk with so many levels finds what lies on a way of at most so many names.** -/
theorem mem_descendFrom_iff (hproper : fs.Proper) : ∀ (levels : Nat) (dir : List String),
    p ∈ descendFrom fs levels dir ↔ ∃ rest, p = .fromRoot (dir ++ rest) ∧ rest.length ≤ levels ∧ FoundAlong fs dir rest
  | 0, dir => by
    rw [descendFrom]
    refine ⟨fun h => absurd h List.not_mem_nil, fun ⟨rest, _, hlength, h⟩ => absurd ?_ h.ne_nil⟩
    exact List.length_eq_zero_iff.1 (Nat.le_zero.1 hlength)
  | levels + 1, dir => by
    have hdown := fun name => mem_descendFrom_iff hproper levels (dir ++ [name])
    rw [descendFrom, List.mem_flatMap]
    constructor
    · rintro ⟨name, -, h⟩
      cases he : fs.entry? (dir ++ [name]) with
      | none => simp [he] at h
      | some e =>
        simp only [he] at h
        cases e with
        | directory =>
          simp only [List.mem_ite_nil_right] at h
          obtain ⟨hname, h⟩ := h
          obtain ⟨rest, rfl, hlength, hrest⟩ := (hdown name).1 h
          exact ⟨name :: rest, by simp, Nat.succ_le_succ hlength, (foundAlong_cons hproper).2 (.inr ⟨he, hname, hrest⟩)⟩
        | file content =>
          simp only [List.mem_ite_nil_right, List.mem_singleton, Bool.and_eq_true, Bool.not_eq_true'] at h
          exact ⟨[name], h.2, by simp, foundAlong_singleton_iff.2 ⟨h.1.1, _, he, h.1.2⟩⟩
        | link target =>
          simp only [List.mem_ite_nil_right, List.mem_singleton, Bool.and_eq_true, Bool.not_eq_true'] at h
          exact ⟨[name], h.2, by simp, foundAlong_singleton_iff.2 ⟨h.1.1, _, he, h.1.2⟩⟩
    · rintro ⟨rest, rfl, hlength, h⟩
      obtain ⟨name, rest, rfl⟩ := List.exists_cons_of_ne_nil h.ne_nil
      rcases (foundAlong_cons hproper).1 h with ⟨rfl, hshown, e, he, hfound⟩ | ⟨he, hname, hrest⟩
      · refine ⟨name, (Files.mem_namesIn_iff hproper).2 ⟨e, he⟩, ?_⟩
        cases e with
        | directory => cases hfound
        | file content => simp [he, hshown, hfound]
        | link target => simp [he, hshown, hfound]
      · refine ⟨name, (Files.mem_namesIn_iff hproper).2 ⟨_, he⟩, ?_⟩
        simp only [he, List.mem_ite_nil_right]
        exact ⟨hname, (hdown name).2 ⟨rest, by simp, Nat.le_of_succ_le_succ hlength, hrest⟩⟩

/-- **From directory to directory the same is found as all at once.** -/
theorem mem_descend_iff (hproper : fs.Proper) : p ∈ descend fs base ↔ p ∈ walk fs base := by
  rw [descend, mem_descendFrom_iff hproper, mem_walk_iff_found hproper]
  constructor
  · rintro ⟨rest, rfl, -, h⟩
    refine ⟨rfl, ⟨List.prefix_append _ _, ?_⟩, h.found⟩
    rw [show (Path.fromRoot (base.names ++ rest)).names = base.names ++ rest from rfl, List.drop_left]
    exact ⟨h.ne_nil, h.entered, h.shown⟩
  · rintro ⟨hp, ⟨⟨rest, hrest⟩, h⟩, e, he, hfound⟩
    rw [← hrest, List.drop_left] at h
    rw [← hrest] at he hfound
    refine ⟨rest, hrest ▸ hp, ?_, ⟨h.1, h.2.1, h.2.2, e, he, hfound⟩⟩
    have hdepth := Files.length_le_depth he
    rw [List.length_append] at hdepth
    omega

/-! ## What a walk meets -/

/-- **A walk meets what is not hidden, with no directory on the way that it does not enter.** -/
theorem meets_iff (horigin : base.origin = p.origin) : Meets base.names p.names ↔ base.isAbove p = true ∧
    isHidden p.name = false ∧ ∀ q : Path, base.isAbove q = true → q.isAbove p = true → isEntered q.name = true := by
  by_cases habove : base.isAbove p = true
  · obtain ⟨-, ⟨rest, hrest⟩, hne⟩ := Path.isAbove_iff.1 habove
    have hnil : rest ≠ [] := fun hnil => hne (by rw [← hrest, hnil, List.append_nil])
    obtain ⟨way, name, rfl⟩ : ∃ way name, rest = way ++ [name] := ⟨_, _, (List.dropLast_concat_getLast hnil).symm⟩
    have hname : p.name = name := by rw [Path.name, ← hrest]; simp
    have hmeets : Meets base.names p.names ↔ way.all isEntered = true ∧ isHidden name = false := by
      rw [Meets, ← hrest, List.drop_left, List.dropLast_concat]
      simp
    rw [hmeets, and_iff_right habove, hname, and_comm]
    refine and_congr_right (fun _ => ⟨fun hall q hbase hq => ?_, fun hall => ?_⟩)
    · obtain ⟨-, ⟨mid, hmid⟩, hne'⟩ := Path.isAbove_iff.1 hbase
      obtain ⟨-, hpre, hne⟩ := Path.isAbove_iff.1 hq
      have hnil : mid ≠ [] := fun hnil => hne' (by rw [← hmid, hnil, List.append_nil])
      rw [← hrest, ← hmid, List.prefix_append_right_inj] at hpre
      have hway : mid <+: way := (List.prefix_concat_iff.1 hpre).resolve_left (fun heq => hne (by rw [← hmid, heq, hrest]))
      have hlast : q.name = mid.getLast hnil := by
        rw [Path.name, ← hmid, List.getLast?_append_of_ne_nil _ hnil, List.getLast?_eq_some_getLast hnil, Option.getD_some]
      rw [hlast]
      exact List.all_eq_true.1 hall _ (hway.subset (List.getLast_mem hnil))
    · refine List.all_eq_true.2 (fun dir hdir => ?_)
      obtain ⟨before, after, rfl⟩ := List.append_of_mem hdir
      have hq := hall ⟨base.origin, base.names ++ before ++ [dir]⟩
        (Path.isAbove_iff.2 ⟨rfl, ⟨before ++ [dir], by simp⟩, by simp⟩)
        (Path.isAbove_iff.2 ⟨horigin, ⟨after ++ [name], by rw [← hrest]; simp⟩, by rw [← hrest]; simp⟩)
      simpa [Path.name] using hq
  · refine ⟨fun h => absurd ?_ habove, fun h => absurd h.1 habove⟩
    refine Path.isAbove_iff.2 ⟨horigin, h.1, fun heq => h.2.1 (by rw [heq, List.drop_length])⟩

/-- A file below the root that has a known suffix and is not hidden, in directories none of which is hidden or holds
installed packages. -/
structure IsSource (d : Discovery) (fs : Files) (p : Path) : Prop where
  below : d.root.isAbove p = true
  file : ∃ content, fs.entry? p.names = some (.file content)
  known : p.suffix ∈ d.suffixes
  shown : isHidden p.name = false
  entered : ∀ dir : Path, d.root.isAbove dir = true → dir.isAbove p = true →
    isHidden dir.name = false ∧ dir.name ≠ "node_modules"

theorem isEntered_iff {name : String} : isEntered name = true ↔ isHidden name = false ∧ name ≠ "node_modules" := by
  simp [isEntered]

/-- **Where there are no links, a walk from the root finds the sources**, among what has a known suffix. -/
theorem isSource_iff (hproper : fs.Proper) (hroot : d.root.origin = .root) (hlinks : fs.LinkFree d.root.names) :
    d.IsSource fs p ↔ p ∈ walk fs d.root ∧ d.matches_ p = true := by
  rw [mem_walk_iff hproper hlinks, matches_iff]
  constructor
  · intro h
    have horigin := (Path.isAbove_iff.1 h.below).1
    refine ⟨⟨?_, (meets_iff horigin).2 ⟨h.below, h.shown, ?_⟩, h.file⟩, h.known⟩
    · rw [Path.fromRoot, ← hroot, horigin]
    · exact fun q hbase hq => isEntered_iff.2 (h.entered q hbase hq)
  · rintro ⟨⟨hp, hmeets, hfile⟩, hknown⟩
    have horigin : d.root.origin = p.origin := by rw [hroot, hp]; rfl
    obtain ⟨hbelow, hshown, hentered⟩ := (meets_iff horigin).1 hmeets
    exact ⟨hbelow, hfile, hknown, hshown, fun dir hbase hdir => isEntered_iff.1 (hentered dir hbase hdir)⟩

/-! ## Candidates -/

/-- **Without links and without a repository the candidates are the sources.** -/
theorem candidates_of_walk (hproper : fs.Proper) (hroot : fs.resolve d.root = .ok d.root)
    (hlinks : fs.LinkFree d.root.names) (hnone : fs.exists_ (d.root.child Project.repositoryName) = false) (git : Listing) :
    ∃ cs, d.candidates fs git = .ok cs ∧ ∀ c, c ∈ cs ↔ d.IsSource fs c := by
  have horigin := Files.origin_of_resolve hroot
  have hplace : ∀ q, d.IsSource fs q → fs.resolve q = .ok q := by
    intro q hq
    obtain ⟨hwalk, -⟩ := (isSource_iff hproper horigin hlinks).1 hq
    obtain ⟨hrooted, hmeets, content, hfile⟩ := (mem_walk_iff hproper hlinks).1 hwalk
    have hstraight := hproper.straight (Files.straight_of_resolve hroot).2 hlinks hmeets.1 hfile
    rw [Files.resolve_of_straight hstraight, ← hrooted]
  have hfound : ∀ q, d.IsSource fs q ↔ q ∈ d.found fs git ∧ q.suffix ∈ d.suffixes := fun q => by
    rw [found_of_missing hnone, isSource_iff hproper horigin hlinks, matches_iff]
  obtain ⟨cs, hcs⟩ : ∃ cs, d.candidates fs git = .ok cs :=
    exists_candidates_iff.2 (fun q hq hknown => ⟨q, hplace q ((hfound q).2 ⟨hq, hknown⟩)⟩)
  refine ⟨cs, hcs, fun c => ?_⟩
  rw [mem_candidates_iff hcs]
  constructor
  · rintro ⟨q, hq, hknown, hc⟩
    have hsource := (hfound q).2 ⟨hq, hknown⟩
    rw [hplace q hsource] at hc
    rwa [← Except.ok.inj hc]
  · intro hc
    obtain ⟨hmem, hknown⟩ := (hfound c).1 hc
    exact ⟨c, hmem, hknown, hplace c hc⟩

end Discovery
end TagAlias
