import TagAlias.Proofs.Message.Kept
import TagAlias.Proofs.Workspace.Sources
/-!
# Runs that are repeated

After a run everything it has written stands in its place and every message it has sent is at hand, so the same steps
change nothing when they are carried out again (`run_again`).  All results of a run over the sources of a workspace lie in
the directory for results, from which no sources are taken, so a second run goes over the same files and finds them as
they were (`sources_again`).  It gives the same report and leaves all files as they are (`run_repeats`).

There is one exception.  A repository may list files that are not there, and what is listed is not looked at.  A scan path
that leads to no directory picks none of them; if the run makes that directory on its way, the next one picks them
(`sources_unrepeated`).
-/
namespace TagAlias

namespace RunPlan

variable {α : Type} [Tellable α] {r : RunPlan} {fs fs' : Files} {b b' : Bus α} {files : List Path}

/-! ## Steps that have been carried out -/

theorem builds_of_performAll : ∀ (steps : List (Action α)) {fs fs' : Files} {b b' : Bus α} {done : Except Refusal Unit},
    fs.Proper → performAll fs b steps = (fs', b', done) → Files.Builds fs fs'
  | [], fs, fs', b, b', done, _, h => by cases h; exact .refl
  | .send m :: steps, fs, fs', b, b', done, hproper, h => by
    rw [performAll] at h
    split at h
    · next fs₁ b₁ hstep =>
      rw [(perform_send_ok hstep).1] at h
      exact builds_of_performAll steps hproper h
    · next fs₁ b₁ e hstep =>
      cases h
      obtain ⟨rfl, -⟩ : fs = fs' ∧ _ := Prod.mk.inj hstep
      exact .refl
  | .write p content :: steps, fs, fs', b, b', done, hproper, h => by
    have hwrite := Files.writeInto_builds hproper p content
    rw [performAll, perform] at h
    cases hinto : fs.writeInto p content with
    | mk fs₁ fault =>
      rw [hinto] at h hwrite
      cases fault with
      | none => exact hwrite.trans (builds_of_performAll steps (hwrite.proper hproper) h)
      | some e => cases h; exact hwrite

theorem takes_of_performAll : ∀ (steps : List (Action α)) {fs fs' : Files} {b b' : Bus α},
    performAll fs b steps = (fs', b', .ok ()) → b.Extends b' ∧ ∀ m ∈ sent steps, b'.Takes m
  | [], fs, fs', b, b', h => by cases h; exact ⟨.refl b, fun m hm => absurd hm List.not_mem_nil⟩
  | .send m :: steps, fs, fs', b, b', h => by
    obtain ⟨fs₁, b₁, hstep, hrest⟩ := performAll_cons_ok h
    obtain ⟨hextends, htakes⟩ := Bus.takes_of_send (perform_send_ok hstep).2
    obtain ⟨hextends', htakes'⟩ := takes_of_performAll steps hrest
    exact ⟨hextends.trans hextends', List.forall_mem_cons.2 ⟨htakes.mono hextends', htakes'⟩⟩
  | .write p content :: steps, fs, fs', b, b', h => by
    obtain ⟨fs₁, b₁, hstep, hrest⟩ := performAll_cons_ok h
    rw [(perform_write_ok hstep).1] at hrest
    exact takes_of_performAll steps hrest

/-- **Steps change nothing where all that they write stands already**, if their messages are taken. -/
theorem performAll_again : ∀ (steps : List (Action α)) {b : Bus α}, (∀ w ∈ writes steps, fs.writeInto w.1 w.2 = (fs, none)) →
    (∀ m ∈ sent steps, b.Takes m) → ∃ b', performAll fs b steps = (fs, b', .ok ())
  | [], b, _, _ => ⟨b, rfl⟩
  | .send m :: steps, b, hwrites, hsends => by
    obtain ⟨htakes, hrest⟩ := List.forall_mem_cons.1 hsends
    obtain ⟨b₁, hsend⟩ := htakes.exists_send fs
    have hextends := (Bus.takes_of_send hsend).1
    obtain ⟨b', hb'⟩ := performAll_again steps (b := b₁) hwrites (fun m hm => (hrest m hm).mono hextends)
    have hstep : perform fs b (.send m) = (fs, b₁, .ok ()) := by rw [perform, hsend]
    exact ⟨b', by rw [performAll_cons hstep, hb']⟩
  | .write p content :: steps, b, hwrites, hsends => by
    obtain ⟨hwrite, hrest⟩ := List.forall_mem_cons.1 hwrites
    obtain ⟨b', hb'⟩ := performAll_again steps hrest hsends
    have hstep : perform fs b (.write p content) = (fs, b, .ok ()) := by rw [perform, hwrite]
    exact ⟨b', by rw [performAll_cons hstep, hb']⟩

theorem outcome_congr {p : Path} (h : fs'.read p = fs.read p) : r.outcome fs' p = r.outcome fs p := by
  unfold outcome
  rw [h]

/-- **A run over files that are as they were gives the same report and changes nothing**, if its results stand in their
places. -/
theorem run_again {rep : Report} (hcheck : r.check = false) (hrun : r.run fs b files = (fs', b', .ok rep))
    (hread : ∀ p ∈ files, fs'.read p = fs.read p)
    (hthere : ∀ w ∈ r.results fs files, fs'.writeInto w.1 w.2 = (fs', none)) :
    ∃ b'', r.run fs' b' files = (fs', b'', .ok rep) := by
  obtain ⟨os, hos⟩ : ∃ os, files.mapM (fun p => (r.outcome fs p).map (fun o => (p, o))) = .ok os := by
    unfold run at hrun
    split at hrun
    · cases hrun
    · next os hos => exact ⟨os, hos⟩
  have houtcomes := outcomes_of_mapM hos
  have hos' : files.mapM (fun p => (r.outcome fs' p).map (fun o => (p, o))) = .ok os := by
    rw [← hos]
    exact mapM_congr (fun p hp => by rw [outcome_congr (hread p hp)])
  have hwrites := writes_of_all houtcomes (r.closing (report os) : Message α)
  rw [hcheck, if_neg Bool.false_ne_true] at hwrites
  unfold run at hrun ⊢
  rw [hos] at hrun
  rw [hos']
  dsimp only at hrun ⊢
  split at hrun
  · next fs₁ b₁ hperformed =>
    cases hrun
    obtain ⟨b'', hagain⟩ := performAll_again _ (by rwa [hwrites]) (takes_of_performAll _ hperformed).2
    exact ⟨b'', by rw [hagain]⟩
  · cases hrun

/-! ## Results below a directory -/

/-- What is written below a directory fills it. -/
theorem fills_of_wrote {out : List String} {ws : List (Path × Bytes)} (hwrote : Wrote fs ws fs')
    (hstays : Files.Stays fs fs') (hbelow : ∀ w ∈ ws, Files.Straight fs w.1.names ∧ out <+: w.1.names ∧ w.1.names ≠ out) :
    Files.Fills out fs fs' := by
  refine ⟨hwrote.sameLinks, hstays, fun names hnot => ?_⟩
  have hapart : ∀ w ∈ ws, fs.resolve w.1 ≠ .ok (.fromRoot names) := by
    intro w hw hplace
    obtain ⟨hstraight, hpre, hne⟩ := hbelow w hw
    have hnames := Files.names_of_resolve hstraight hplace
    exact hne (hnames.trans (hnot (hnames ▸ hpre)))
  refine (hwrote.elsewhere names hapart).imp_right (fun ⟨hnone, hdir, w, hw, q, hq, hplace⟩ => ⟨hnone, hdir, ?_⟩)
  obtain ⟨hstraight, hpre, -⟩ := hbelow w hw
  have hnames := Files.names_of_resolve (hstraight.before hq) hplace
  rcases List.prefix_or_prefix_of_prefix (hnames ▸ hq) hpre with habove | hout
  · exact habove
  · exact hnot hout ▸ List.prefix_refl names

end RunPlan

namespace Workspace

open Files (Straight)

variable {α : Type} [Tellable α] {w : Workspace} {fs fs' : Files} {b b' : Bus α} {git git' : Listing} {out : Path} {ps : List Path}

/-! ## Sources after a run -/

def repository (w : Workspace) : Path := w.root.child Project.repositoryName

/-- A repository is there and tells of its files. -/
def Lists (w : Workspace) (fs : Files) (git : Listing) : Prop :=
  fs.exists_ w.repository = true ∧ ∃ text, git = .lines text

/-- What a workspace, its files before and after a run, and what its repository tells of them have to be like for the run to
be repeated: there are no links; where a repository tells of files, before or after, the same are found, but for results;
and what is listed before makes nothing of a directory that the run makes. -/
structure Repeatable (w : Workspace) (fs fs' : Files) (git git' : Listing) (out : Path) : Prop where
  proper : fs.Proper
  root : fs.resolve w.root = .ok w.root
  linkFree : fs.LinkFree w.root.names
  outLinkFree : fs.LinkFree out.names
  listing : w.Lists fs git ∨ w.Lists fs' git' → Discovery.Alike fs out (w.discovery.found fs git) (w.discovery.found fs' git')
  steady : w.Lists fs git → ∀ q ∈ w.discovery.found fs git, w.discovery.matches_ q = true → ∀ s, fs.resolve q = .ok s →
    out.isAbove s = false → w.discovery.Steady fs w.config.scanPaths out s

/-- The root of a workspace that has been opened is where it says. -/
theorem resolve_root_of_openAt {parse : Parse} {root : Path} {config : Option Config}
    (h : (openAt parse fs b root config).2 = .ok w) :
    fs.resolve w.root = .ok w.root := by
  obtain ⟨hroot, hstraight⟩ := Files.straight_of_resolve (root_of_openAt h)
  rw [Files.resolve_of_straight hstraight, ← hroot]

theorem outDir_congr (hlinks : Files.SameLinks fs fs') : w.outDir fs' = w.outDir fs := by
  unfold outDir Project.resolve
  simp only [Files.resolve_congr hlinks]

theorem steady_of_walk (hproper : fs.Proper) {base : Path} (hbase : Straight fs base.names)
    (hlinks : fs.LinkFree base.names) {d : Discovery} {scanPaths : List String} {q s : Path}
    (hq : q ∈ Discovery.walk fs base) (hs : fs.resolve q = .ok s) : d.Steady fs scanPaths out s := by
  obtain ⟨-, hmeets, content, hfile⟩ := (Discovery.mem_walk_iff hproper hlinks).1 hq
  rw [Files.resolve_of_straight (hproper.straight hbase hlinks hmeets.1 hfile)] at hs
  cases hs
  exact Discovery.steady_of_entry (c := .fromRoot q.names) hproper hfile scanPaths

/-- Where no repository tells of files, they are found by a walk. -/
theorem found_of_not_lists (h : ¬ w.Lists fs git) : w.discovery.found fs git = Discovery.walk fs w.root := by
  cases git with
  | unavailable => exact Discovery.found_of_unavailable
  | lines text =>
    refine Discovery.found_of_missing (Bool.eq_false_iff.2 (fun hthere => h ⟨hthere, text, rfl⟩))

/-- What is found is as before, but for what leads below the directory for results, and is steady. -/
theorem found_congr (h : w.Repeatable fs fs' git git' out) (hproper' : fs'.Proper) (hfills : Files.Fills out.names fs fs')
    (hout : out.origin = .root) :
    Discovery.Alike fs out (w.discovery.found fs git) (w.discovery.found fs' git') ∧
      ∀ q ∈ w.discovery.found fs git, w.discovery.matches_ q = true → ∀ s, fs.resolve q = .ok s →
        out.isAbove s = false → w.discovery.Steady fs w.config.scanPaths out s := by
  have hstraight := (Files.straight_of_resolve h.root).2
  by_cases hlists : w.Lists fs git
  · exact ⟨h.listing (.inl hlists), h.steady hlists⟩
  · refine ⟨?_, fun q hq _ s hs _ => ?_⟩
    · by_cases hlists' : w.Lists fs' git'
      · exact h.listing (.inr hlists')
      · rw [found_of_not_lists hlists, found_of_not_lists hlists']
        exact Discovery.walk_alike h.proper hproper' hfills hout hstraight h.linkFree
    · rw [found_of_not_lists hlists] at hq
      exact steady_of_walk h.proper hstraight h.linkFree hq hs

/-- **The sources are the same again** when results have been put below their directory, and they are steady. -/
theorem sources_again (h : w.Repeatable fs fs' git git' out) (hproper' : fs'.Proper) (hfills : Files.Fills out.names fs fs')
    (hout : w.outDir fs = .ok (some out)) (hps : w.sources fs git = .ok ps) :
    w.sources fs' git' = .ok ps ∧ ∀ p ∈ ps, w.discovery.Steady fs w.config.scanPaths out p := by
  obtain ⟨_, hplace⟩ := resolve_of_outDir hout
  have horigin := Files.origin_of_resolve hplace
  obtain ⟨halike, hoff⟩ := found_congr h hproper' hfills horigin
  have hsources : ∀ fs git found, w.discovery.discover fs git w.config.scanPaths = .ok found →
      w.outDir fs = .ok (some out) → w.sources fs git = .ok (found.filter (fun p => !out.isAbove p)) := by
    intro fs git found hfound hout
    unfold sources
    rw [hfound, hout]
    rfl
  unfold sources at hps
  obtain ⟨found, hfound, -⟩ := exists_of_bind hps
  obtain ⟨⟨found', hfound', hsame⟩, hkeeps⟩ := Discovery.discover_congr h.proper hproper' hfills horigin hfound halike hoff
  have hlist : found.filter (fun p => !out.isAbove p) = ps :=
    Except.ok.inj ((hsources fs git found hfound hout).symm.trans hps)
  refine ⟨?_, fun p hp => ?_⟩
  · rw [hsources fs' git' found' hfound' (by rw [outDir_congr hfills.sameLinks, hout]), hsame, hlist]
  · rw [← hlist] at hp
    obtain ⟨hmem, hnot⟩ := List.mem_filter.1 hp
    exact hkeeps p hmem (by simpa using hnot)

theorem nodup_of_sources (hproper : fs.Proper) (hout : w.outDir fs = .ok (some out)) (hps : w.sources fs git = .ok ps) :
    ps.Nodup := by
  unfold sources at hps
  obtain ⟨found, hfound, hps⟩ := exists_of_bind hps
  rw [hout] at hps
  cases hps
  obtain ⟨_, xs, -, -, rfl, -⟩ := Discovery.chosen_of_discover hproper hfound
  refine (Path.nodup_sorted (fun p hp => ?_)).filter _
  obtain ⟨_, hplace⟩ := resolve_of_discover hfound p (Path.mem_sorted_iff.2 hp)
  exact Files.origin_of_resolve hplace

/-! ## Runs over sources -/

/-- The result of a source below the root goes to the same place in the directory for results. -/
theorem place_of_source (hlinks : fs.LinkFree out.names) (hout : w.outDir fs = .ok (some out))
    (hps : w.sources fs git = .ok ps) {p : Path} (hp : p ∈ ps) (hbelow : w.root.isAbove p = true) :
    ∃ rel, rel ≠ [] ∧ p = .fromRoot (w.root.names ++ rel) ∧
      ((w.plan (some out) false).destination p).names = out.names ++ rel ∧
      Straight fs ((w.plan (some out) false).destination p).names := by
  obtain ⟨_, houtplace⟩ := resolve_of_outDir hout
  obtain ⟨⟨_, hplace⟩, -⟩ := resolve_of_sources hout hps p hp
  obtain ⟨hrooted, hstraight⟩ := Files.straight_of_resolve hplace
  obtain ⟨horigin, ⟨rel, hrel⟩, hne⟩ := Path.isAbove_iff.1 hbelow
  have hrelative : p.relativeTo? w.root = some ⟨.relative, rel⟩ := by
    unfold Path.relativeTo?
    rw [← horigin, ← hrel, List.isPrefixOf_iff_prefix.2 (List.prefix_append _ _)]
    simp
  refine ⟨rel, fun hnil => hne (by rw [← hrel, hnil, List.append_nil]), by rw [hrel]; exact hrooted, ?_, ?_⟩
  · rw [RunPlan.destination_of_below rfl hrelative]
  · exact RunPlan.straight_of_below rfl (Files.straight_of_resolve houtplace).2 hlinks hrelative
      (fun hup => hstraight.plain (by rw [← hrel]; exact List.mem_append_right _ hup))

/-- A run over sources below the root writes each result at its place below the directory for results. -/
theorem wrote_of_sources {rep : Report} (h : w.Repeatable fs fs' git git' out) (hout : w.outDir fs = .ok (some out))
    (hps : w.sources fs git = .ok ps) (hbelow : ∀ p ∈ ps, w.root.isAbove p = true)
    (hrun : (w.plan (some out) false).run fs b ps = (fs', b', .ok rep)) :
    Files.Builds fs fs' ∧ Wrote fs ((w.plan (some out) false).results fs ps) fs' ∧
      ∀ x ∈ (w.plan (some out) false).results fs ps, Straight fs x.1.names ∧ out.names <+: x.1.names ∧
        x.1.names ≠ out.names := by
  have hplaces := fun p hp => place_of_source h.outLinkFree hout hps hp (hbelow p hp)
  obtain ⟨_, steps, -, hperformed, hwrites, -⟩ := RunPlan.performAll_of_run_ok hrun
  have hresults : RunPlan.writes steps = (w.plan (some out) false).results fs ps := hwrites
  refine ⟨RunPlan.builds_of_performAll steps h.proper hperformed, ?_, fun x hx => ?_⟩
  · have hapart : ps.Pairwise (fun p q => ∀ d, fs.resolve ((w.plan (some out) false).destination p) = .ok d →
        fs.resolve ((w.plan (some out) false).destination q) ≠ .ok d) := by
      refine (nodup_of_sources h.proper hout hps).imp_of_mem (fun {p q} hp hq hne d hd hd' => hne ?_)
      obtain ⟨rel, -, hp, hnames, hstraight⟩ := hplaces p hp
      obtain ⟨rel', -, hq, hnames', hstraight'⟩ := hplaces q hq
      rw [Files.resolve_of_straight hstraight, hnames] at hd
      rw [Files.resolve_of_straight hstraight', hnames', ← hd] at hd'
      have hrel : rel' = rel := by simpa [Path.fromRoot] using hd'
      rw [hp, hq, hrel]
    rw [← hresults]
    exact RunPlan.wrote_of_performAll steps hperformed (by rw [hresults]; exact RunPlan.results_apart hapart)
  · obtain ⟨p, hp, _, -, rfl⟩ := RunPlan.mem_results_iff.1 hx
    obtain ⟨rel, hrel, -, hnames, hstraight⟩ := hplaces p hp
    exact ⟨hstraight, hnames ▸ List.prefix_append _ _, by simpa [hnames] using hrel⟩

/-- **Results are never taken for sources.**  A run over the sources of a workspace, all of which lie below the root,
writes its results; a second run then goes over the same sources, gives the same report and leaves all files as they
are. -/
theorem run_repeats {rep : Report} (h : w.Repeatable fs fs' git git' out) (hout : w.outDir fs = .ok (some out))
    (hps : w.sources fs git = .ok ps) (hbelow : ∀ p ∈ ps, w.root.isAbove p = true)
    (hrun : w.run fs b git none false = (fs', b', .ok rep)) :
    w.sources fs' git' = .ok ps ∧ ∃ b'', w.run fs' b' git' none false = (fs', b'', .ok rep) := by
  have hplan : (w.plan (some out) false).run fs b ps = (fs', b', .ok rep) := by
    rw [← run_of_picks hout (show w.picks fs git none = .ok ps from hps)]
    exact hrun
  obtain ⟨hbuilds, hwrote, hresults⟩ := wrote_of_sources h hout hps hbelow hplan
  have hproper' := hbuilds.proper h.proper
  have hfills := RunPlan.fills_of_wrote hwrote hbuilds.stays hresults
  obtain ⟨hsources, hsteady⟩ := sources_again h hproper' hfills hout hps
  have hread : ∀ p ∈ ps, fs'.read p = fs.read p := by
    intro p hp
    obtain ⟨_, houtplace⟩ := resolve_of_outDir hout
    obtain ⟨⟨_, hplace⟩, hnot⟩ := resolve_of_sources hout hps p hp
    have horigin : out.origin = p.origin := (Files.origin_of_resolve houtplace).trans (Files.origin_of_resolve hplace).symm
    exact hfills.read_same h.proper hproper' (Files.straight_of_resolve hplace).2
      ((Path.isAbove_eq_false_iff horigin).1 hnot) (hsteady p hp).self
  have hthere : ∀ x ∈ (w.plan (some out) false).results fs ps, fs'.writeInto x.1 x.2 = (fs', none) := by
    intro x hx
    obtain ⟨names, hplace, hfile⟩ := hwrote.written x hx
    have hstraight := (hresults x hx).1
    have hnames := Files.names_of_resolve hstraight hplace
    exact Files.writeInto_same hproper' (hstraight.congr hfills.sameLinks) (hnames ▸ hfile)
  obtain ⟨b'', hagain⟩ := RunPlan.run_again rfl hplan hread hthere
  refine ⟨hsources, b'', ?_⟩
  have hout' : w.outDir fs' = .ok (some out) := by rw [outDir_congr hfills.sameLinks, hout]
  rw [run_of_picks hout' (show w.picks fs' git' none = .ok ps from hsources)]
  exact hagain

/-- A workspace with a repository that scans its directory for results, which the first run makes. -/
def scannedWorkspace : Workspace :=
  ⟨Grammar.parse, .fromRoot ["w"], { Config.standard with outDir := some "out", scanPaths := ["src", "out"] }⟩

@[inherit_doc scannedWorkspace]
def scannedFiles : Files :=
  ⟨[(["w"], .directory), (["w", ".git"], .directory), (["w", "src"], .directory),
    (["w", "src", "a.js"], .file (Bytes.ofString "class A { render() { return <Foo/>; } }"))]⟩

theorem repeatable_scanned (hthere : fs'.exists_ scannedWorkspace.repository = true) :
    scannedWorkspace.Repeatable scannedFiles fs' (.lines "src/a.js\n") (.lines "out/src/a.js\nsrc/a.js\n")
      (.fromRoot ["w", "out"]) := by
  have hrepository : scannedFiles.exists_ scannedWorkspace.repository = true := by decide +kernel
  have hunlinked : ∀ x ∈ scannedFiles.entries, ∀ target, x.2 ≠ .link target := by simp [scannedFiles]
  have hlisted : scannedWorkspace.discovery.listed "src/a.js\n" = [.fromRoot ["w", "src", "a.js"]] := by decide +kernel
  have hlisted' : scannedWorkspace.discovery.listed "out/src/a.js\nsrc/a.js\n" =
      [.fromRoot ["w", "out", "src", "a.js"], .fromRoot ["w", "src", "a.js"]] := by decide +kernel
  have hresult : scannedFiles.resolve (.fromRoot ["w", "out", "src", "a.js"]) = .ok (.fromRoot ["w", "out", "src", "a.js"]) := by
    decide +kernel
  have hsource : scannedFiles.resolve (.fromRoot ["w", "src", "a.js"]) = .ok (.fromRoot ["w", "src", "a.js"]) := by
    decide +kernel
  have hproper : scannedFiles.Proper := Files.proper_of_entries (by decide +kernel) (by decide +kernel)
  have hopen : (openAt Grammar.parse scannedFiles Bus.telling scannedWorkspace.root
      (some scannedWorkspace.config)).2 = .ok scannedWorkspace := rfl
  refine ⟨hproper, resolve_root_of_openAt hopen, Files.linkFree_of_entries hunlinked _, Files.linkFree_of_entries hunlinked _,
    fun _ q hq => ?_, fun _ q hq _ s hs _ => ?_⟩
  · rw [Discovery.found_of_lines (d := scannedWorkspace.discovery) hrepository,
      Discovery.found_of_lines (d := scannedWorkspace.discovery) hthere, hlisted, hlisted',
      List.mem_cons (a := q) (b := .fromRoot ["w", "out", "src", "a.js"])]
    refine ⟨.inr, fun h => h.resolve_left (fun heq => ?_)⟩
    rw [heq] at hq
    exact absurd (hq _ hresult) (by decide +kernel)
  · rw [Discovery.found_of_lines (d := scannedWorkspace.discovery) hrepository, hlisted, List.mem_singleton] at hq
    rw [hq, hsource] at hs
    cases hs
    exact Discovery.steady_of_entry (c := .fromRoot ["w", "src", "a.js"])
      (e := .file (Bytes.ofString "class A { render() { return <Foo/>; } }")) hproper (by decide +kernel) _

theorem run_repeats_scanned : ∃ fs' b' rep,
    scannedWorkspace.run scannedFiles Bus.telling (.lines "src/a.js\n") none false =
      (fs', b', .ok rep) ∧
    rep.modified = [.fromRoot ["w", "src", "a.js"]] ∧ fs'.entry? ["w", "out", "src", "a.js"] ≠ none ∧
    scannedWorkspace.sources fs' (.lines "out/src/a.js\nsrc/a.js\n") = .ok [.fromRoot ["w", "src", "a.js"]] ∧
    ∃ b'', scannedWorkspace.run fs' b' (.lines "out/src/a.js\nsrc/a.js\n") none false = (fs', b'', .ok rep) := by
  have hout : scannedWorkspace.outDir scannedFiles = .ok (some (.fromRoot ["w", "out"])) := by decide +kernel
  have hps : scannedWorkspace.sources scannedFiles (.lines "src/a.js\n") = .ok [.fromRoot ["w", "src", "a.js"]] := by
    decide +kernel
  have hends : (fun x : Files × Bus Argument × Except Refusal Report => x.2.2.toOption.map (·.modified) =
        some [.fromRoot ["w", "src", "a.js"]] ∧ Files.entry? x.1 ["w", "out", "src", "a.js"] ≠ none ∧
        x.1.exists_ scannedWorkspace.repository = true)
      (scannedWorkspace.run scannedFiles Bus.telling (.lines "src/a.js\n") none false) := by
    decide +kernel
  obtain ⟨fs', b', rep, hrun, hmodified, hwritten, hthere⟩ : ∃ fs' b' rep, scannedWorkspace.run scannedFiles
      Bus.telling (.lines "src/a.js\n") none false = (fs', b', .ok rep) ∧
        rep.modified = [.fromRoot ["w", "src", "a.js"]] ∧ fs'.entry? ["w", "out", "src", "a.js"] ≠ none ∧
        fs'.exists_ scannedWorkspace.repository = true := by
    revert hends
    generalize scannedWorkspace.run scannedFiles Bus.telling (.lines "src/a.js\n") none false = run
    obtain ⟨fs', b', (e | rep)⟩ := run
    · rintro ⟨h, -⟩; cases h
    · exact fun h => ⟨fs', b', rep, rfl, Option.some.inj h.1, h.2⟩
  have hbelow : ∀ p ∈ [Path.fromRoot ["w", "src", "a.js"]], scannedWorkspace.root.isAbove p = true := by decide +kernel
  exact ⟨fs', b', rep, hrun, hmodified, hwritten, run_repeats (repeatable_scanned hthere) hout hps hbelow hrun⟩

/-- A workspace whose repository lists a file that is not there, in a directory that is made on the way to results. -/
def gappedWorkspace : Workspace :=
  ⟨Grammar.parse, .fromRoot ["w"], { Config.standard with outDir := some "gen/out", scanPaths := ["src", "gen"] }⟩

/-- **A file that is listed but not there may become a source**, when a run makes the directory that a scan path names. -/
theorem sources_unrepeated : scannedFiles.Proper ∧ (∀ x ∈ scannedFiles.entries, ∀ target, x.2 ≠ .link target) ∧
    gappedWorkspace.outDir scannedFiles = .ok (some (.fromRoot ["w", "gen", "out"])) ∧
    gappedWorkspace.sources scannedFiles (.lines "gen/b.js\nsrc/a.js\n") = .ok [.fromRoot ["w", "src", "a.js"]] ∧
    ∃ fs' b' rep, gappedWorkspace.run scannedFiles Bus.telling (.lines "gen/b.js\nsrc/a.js\n") none
        false = (fs', b', .ok rep) ∧
      gappedWorkspace.sources fs' (.lines "gen/b.js\nsrc/a.js\n") =
        .ok [.fromRoot ["w", "gen", "b.js"], .fromRoot ["w", "src", "a.js"]] := by
  refine ⟨Files.proper_of_entries (by decide +kernel) (by decide +kernel), by simp [scannedFiles], by decide +kernel,
    by decide +kernel, ?_⟩
  have hends : (fun x : Files × Bus Argument × Except Refusal Report => x.2.2.isOk = true ∧
      gappedWorkspace.outDir x.1 = .ok (some (.fromRoot ["w", "gen", "out"])) ∧
      gappedWorkspace.discovery.candidates x.1 (.lines "gen/b.js\nsrc/a.js\n") =
        .ok [.fromRoot ["w", "gen", "b.js"], .fromRoot ["w", "src", "a.js"]] ∧
      ["src", "gen"].mapM (gappedWorkspace.discovery.select x.1
          [.fromRoot ["w", "gen", "b.js"], .fromRoot ["w", "src", "a.js"]]) =
        .ok [[.fromRoot ["w", "src", "a.js"]], [.fromRoot ["w", "gen", "b.js"]]])
      (gappedWorkspace.run scannedFiles Bus.telling (.lines "gen/b.js\nsrc/a.js\n") none false) := by
    decide +kernel
  have hsorted : Path.sorted [.fromRoot ["w", "src", "a.js"], .fromRoot ["w", "gen", "b.js"]] =
      [.fromRoot ["w", "gen", "b.js"], .fromRoot ["w", "src", "a.js"]] := by
    have hle : Path.le (.fromRoot ["w", "src", "a.js"]) (.fromRoot ["w", "gen", "b.js"]) = false := by decide +kernel
    simp [Path.sorted, List.mergeSort, hle]
    rfl
  revert hends
  generalize gappedWorkspace.run scannedFiles Bus.telling (.lines "gen/b.js\nsrc/a.js\n") none
    false = run
  obtain ⟨fs', b', (e | rep)⟩ := run
  · rintro ⟨h, -⟩; cases h
  · rintro ⟨-, hout, hcandidates, hselected⟩
    refine ⟨fs', b', rep, rfl, ?_⟩
    have hdiscover : gappedWorkspace.discovery.discover fs' (.lines "gen/b.js\nsrc/a.js\n") ["src", "gen"] =
        .ok [.fromRoot ["w", "gen", "b.js"], .fromRoot ["w", "src", "a.js"]] := by
      unfold Discovery.discover
      rw [← hsorted, hcandidates]
      dsimp only [bind, Except.bind]
      rw [hselected]
      rfl
    unfold sources
    rw [show gappedWorkspace.config.scanPaths = ["src", "gen"] from rfl, hdiscover, hout]
    decide +kernel

end Workspace
end TagAlias
