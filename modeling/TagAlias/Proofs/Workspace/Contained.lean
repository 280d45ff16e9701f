import TagAlias.Proofs.Data.Sequence
import TagAlias.Proofs.Workspace.Fate
import TagAlias.Proofs.Workspace.Sorted
import TagAlias.Workspace.App
/-!
# Where results stay

A run writes each result where the destination of its file leads, so what is outside a directory is left alone if every
result lands in the directory, and only then (`keptOutside_of_lands`, `lands_of_keptOutside`).  The result of a file below
the root of the project lands in the directory for results, if no link leads out of it (`resolve_of_below`).  A file that
does not lie below the root is its own destination (`destination_of_not_below`), and is written over.  A run over the
sources of a workspace therefore leaves alone what is outside exactly if all that it modifies lies below the root
(`sources_contained_iff`).
-/
namespace TagAlias

/-! ## What is left alone -/

namespace Files

variable {fs fs' fs₁ : Files}

/-- Where a property holds all is as before, but for new directories. -/
def Keeps (P : List String → Prop) (fs fs' : Files) : Prop :=
  ∀ names, P names → fs'.entry? names = fs.entry? names ∨ (fs.entry? names = none ∧ fs'.entry? names = some .directory)

/-- Outside a directory all is as before, but for new directories. -/
def KeptOutside (dir : List String) (fs fs' : Files) : Prop := Keeps (fun names => ¬ dir <+: names) fs fs'

/-- No link stands below a directory, or at it. -/
def LinkFree (fs : Files) (dir : List String) : Prop :=
  ∀ names target, dir <+: names → fs.entry? names ≠ some (.link target)

variable {P : List String → Prop}

theorem Keeps.refl (fs : Files) : Keeps P fs fs := fun _ _ => .inl rfl

theorem Keeps.entry {names : List String} {e : Entry} (h : Keeps P fs fs') (hnames : P names)
    (he : fs.entry? names = some e) : fs'.entry? names = some e := by
  rcases h names hnames with hsame | ⟨hnone, -⟩
  · rw [hsame, he]
  · rw [he] at hnone; cases hnone

theorem Keeps.trans (h : Keeps P fs fs₁) (h' : Keeps P fs₁ fs') : Keeps P fs fs' := by
  intro names hnames
  rcases h names hnames with hsame | ⟨hnone, hdir⟩
  · rw [← hsame]; exact h' names hnames
  · exact .inr ⟨hnone, h'.entry hnames hdir⟩

theorem Grows.keeps {p : Path} (h : Grows p fs fs') : Keeps P fs fs' := fun names _ =>
  (h names).imp_right (fun ⟨hnone, hdir, _⟩ => ⟨hnone, hdir⟩)

theorem Places.keeps {p : Path} {content : Bytes} {at_ : List String} (h : Places fs p content fs' at_)
    (hthere : P at_ → fs.entry? at_ = some (.file content)) : Keeps P fs fs' := by
  intro names hnames
  by_cases hat : names = at_
  · subst hat
    exact .inl (h.file.trans (hthere hnames).symm)
  · exact (h.elsewhere names hat).imp_right (fun ⟨hnone, hdir, _⟩ => ⟨hnone, hdir⟩)

theorem read_ok {p : Path} {content : Bytes} (h : fs.read p = .ok content) :
    ∃ names, fs.locate p = .ok names ∧ fs.entry? names = some (.file content) := by
  unfold read find at h
  cases hlocate : fs.locate p with
  | error e => simp [hlocate] at h
  | ok names =>
    simp only [hlocate] at h
    refine ⟨names, rfl, ?_⟩
    cases hentry : fs.entry? names with
    | none => simp [hentry] at h
    | some e =>
      cases e with
      | file other => simp only [hentry, Except.ok.injEq] at h; rw [h]
      | directory => simp [hentry] at h
      | link target => simp [hentry] at h

end Files

namespace RunPlan

variable {α : Type} [Tellable α] {r : RunPlan} {fs fs' : Files} {b b' : Bus α} {P : List String → Prop}

/-! ## Steps -/

/-- What is written goes only where it stands already, among the places with a property. -/
def Spares (P : List String → Prop) (fs : Files) (ws : List (Path × Bytes)) : Prop :=
  ∀ w ∈ ws, ∀ names, P names → fs.resolve w.1 = .ok (.fromRoot names) → fs.entry? names = some (.file w.2)

/-- A step, whether it can be carried out or not, leaves alone the places that what it writes spares. -/
theorem keeps_of_perform {a : Action α} {done : Except Refusal Unit} (h : perform fs b a = (fs', b', done))
    (hspares : Spares P fs (writes [a])) : Files.SameLinks fs fs' ∧ Files.Keeps P fs fs' := by
  cases a with
  | send m =>
    obtain ⟨rfl, -⟩ : fs = fs' ∧ _ := Prod.mk.inj h
    exact ⟨.refl fs, .refl fs⟩
  | write p content =>
    unfold perform at h
    dsimp only at h
    split at h
    · next fs₁ hwrite =>
      cases h
      obtain ⟨names, hplaces⟩ := Files.writeInto_places hwrite
      exact ⟨hplaces.sameLinks, hplaces.keeps
        (fun hnames => hspares (p, content) List.mem_cons_self names hnames hplaces.resolve)⟩
    · next fs₁ e q hwrite =>
      cases h
      have hgrows := Files.writeInto_grows hwrite
      exact ⟨hgrows.sameLinks, hgrows.keeps⟩

theorem Spares.next {fs₁ : Files} {ws : List (Path × Bytes)} (h : Spares P fs ws) (hlinks : Files.SameLinks fs fs₁)
    (hkeeps : Files.Keeps P fs fs₁) : Spares P fs₁ ws := fun w hw names hnames hplace =>
  hkeeps.entry hnames (h w hw names hnames (by rw [← Files.resolve_congr hlinks]; exact hplace))

/-- **Steps leave alone the places that what they write spares**, also if one of them fails. -/
theorem keeps_of_performAll : ∀ (steps : List (Action α)) {fs fs' : Files} {b b' : Bus α} {done : Except Refusal Unit},
    performAll fs b steps = (fs', b', done) → Spares P fs (writes steps) → Files.Keeps P fs fs'
  | [], fs, fs', b, b', done, h, _ => by cases h; exact .refl fs
  | a :: steps, fs, fs', b, b', done, h, hspares => by
    have hwrites : writes (a :: steps) = writes [a] ++ writes steps := writes_append [a] steps
    rw [hwrites] at hspares
    have hfirst : Spares P fs (writes [a]) := fun w hw => hspares w (List.mem_append_left _ hw)
    have hrest : Spares P fs (writes steps) := fun w hw => hspares w (List.mem_append_right _ hw)
    rw [performAll] at h
    split at h
    · next fs₁ b₁ hstep =>
      obtain ⟨hlinks, hkeeps⟩ := keeps_of_perform hstep hfirst
      exact hkeeps.trans (keeps_of_performAll steps h (hrest.next hlinks hkeeps))
    · next fs₁ b₁ e hstep =>
      cases h
      exact (keeps_of_perform hstep hfirst).2

/-- **What is written at a place stands there at the end**, if nothing else is written there. -/
theorem written_of_performAll {p : Path} {content : Bytes} {names : List String} :
    ∀ (steps : List (Action α)) {fs fs' : Files} {b b' : Bus α}, performAll fs b steps = (fs', b', .ok ()) →
      (p, content) ∈ writes steps → fs.resolve p = .ok (.fromRoot names) →
      (∀ w ∈ writes steps, fs.resolve w.1 = .ok (.fromRoot names) → w.2 = content) →
      fs'.entry? names = some (.file content)
  | [], _, _, _, _, _, hmem, _, _ => absurd hmem List.not_mem_nil
  | .send m :: steps, fs, fs', b, b', h, hmem, hplace, hsame => by
    obtain ⟨fs₁, b₁, hstep, hrest⟩ := performAll_cons_ok h
    rw [(perform_send_ok hstep).1] at hrest
    exact written_of_performAll steps hrest hmem hplace hsame
  | .write q other :: steps, fs, fs', b, b', h, hmem, hplace, hsame => by
    obtain ⟨fs₁, b₁, hstep, hrest⟩ := performAll_cons_ok h
    obtain ⟨at_, hplaces⟩ := Files.writeInto_places (perform_write_ok hstep).2
    have hresolve : ∀ q, fs₁.resolve q = fs.resolve q := Files.resolve_congr hplaces.sameLinks
    rw [writes_write, List.forall_mem_cons] at hsame
    rw [writes_write, List.mem_cons] at hmem
    have hrests : ∀ w ∈ writes steps, fs₁.resolve w.1 = .ok (.fromRoot names) → w.2 = content := fun w hw hw' =>
      hsame.2 w hw (by rw [← hresolve]; exact hw')
    rcases hmem with heq | hmem
    · cases heq
      have hat : at_ = names := by simpa [Path.fromRoot] using hplaces.resolve.symm.trans hplace
      have hthere : fs₁.entry? names = some (.file content) := hat ▸ hplaces.file
      -- From here on the place itself is what is left alone.
      have hkeeps : Files.Keeps (· = names) fs₁ fs' := keeps_of_performAll steps hrest (fun w hw at_ hat hw' => by
        subst hat
        rw [hthere, hrests w hw hw'])
      exact hkeeps.entry rfl hthere
    · exact written_of_performAll steps hrest hmem (by rw [hresolve]; exact hplace) hrests

/-! ## Runs -/

/-- A run that does not end before it begins carries out steps that write its results; what it reports is of all
outcomes. -/
theorem performAll_of_run {files : List Path} {res : Except Refusal Report} (h : r.run fs b files = (fs', b', res)) :
    (fs' = fs ∧ ∃ e, res = .error e) ∨
      ∃ os steps done, Outcomes r fs files os ∧ performAll fs b steps = (fs', b', done) ∧
        writes steps = (if r.check then [] else r.results fs files) ∧
        ∀ rep, res = .ok rep → done = .ok () ∧ rep = report os := by
  unfold run at h
  cases hos : files.mapM (fun p => (r.outcome fs p).map (fun o => (p, o))) with
  | error e =>
    rw [hos] at h
    cases h
    exact .inl ⟨rfl, e, rfl⟩
  | ok os =>
    have houtcomes := outcomes_of_mapM hos
    have hwrites := writes_of_all houtcomes (r.closing (report os) : Message α)
    rw [hos] at h
    dsimp only at h
    split at h
    · next fs₁ b₁ hperformed =>
      cases h
      exact .inr ⟨os, _, _, houtcomes, hperformed, hwrites, fun rep hrep => ⟨rfl, (Except.ok.inj hrep).symm⟩⟩
    · next fs₁ b₁ e hperformed =>
      cases h
      exact .inr ⟨os, _, _, houtcomes, hperformed, hwrites, fun rep hrep => by cases hrep⟩

theorem performAll_of_run_ok {files : List Path} {rep : Report} (h : r.run fs b files = (fs', b', .ok rep)) :
    ∃ os steps, Outcomes r fs files os ∧ performAll fs b steps = (fs', b', .ok ()) ∧
      writes steps = (if r.check then [] else r.results fs files) ∧ rep = report os := by
  obtain ⟨-, e, herror⟩ | ⟨os, steps, done, hos, hperformed, hwrites, hdone⟩ := performAll_of_run h
  · cases herror
  · obtain ⟨rfl, hrep⟩ := hdone rep rfl
    exact ⟨os, steps, hos, hperformed, hwrites, hrep⟩

theorem mem_results_iff {files : List Path} {w : Path × Bytes} :
    w ∈ r.results fs files ↔ ∃ p ∈ files, ∃ content, r.product fs p = some content ∧ (r.destination p, content) = w := by
  simp only [results, List.mem_filterMap, Option.map_eq_some_iff]

/-- What is written for a file lands in a directory, or where it stands already. -/
def Lands (r : RunPlan) (fs : Files) (dir : List String) (p : Path) : Prop :=
  ∀ content names, r.product fs p = some content → fs.resolve (r.destination p) = .ok (.fromRoot names) →
    dir <+: names ∨ fs.entry? names = some (.file content)

/-- What is written at a place is the same for all files. -/
def Agrees (r : RunPlan) (fs : Files) (files : List Path) (names : List String) : Prop :=
  ∀ p ∈ files, ∀ q ∈ files, ∀ content other, r.product fs p = some content → r.product fs q = some other →
    fs.resolve (r.destination p) = .ok (.fromRoot names) → fs.resolve (r.destination q) = .ok (.fromRoot names) →
    content = other

variable {files : List Path} {dir : List String}

/-- **If all results land in a directory, a run leaves alone what is outside**, however it ends. -/
theorem keptOutside_of_lands {res : Except Refusal Report} (h : r.run fs b files = (fs', b', res))
    (hlands : ∀ p ∈ files, r.Lands fs dir p) : Files.KeptOutside dir fs fs' := by
  obtain ⟨rfl, -⟩ | ⟨_, steps, _, -, hperformed, hwrites, -⟩ := performAll_of_run h
  · exact .refl fs'
  refine keeps_of_performAll steps hperformed (fun w hw names hout hplace => ?_)
  rw [hwrites] at hw
  split at hw
  · cases hw
  · obtain ⟨p, hp, content, hproduct, rfl⟩ := mem_results_iff.1 hw
    exact (hlands p hp content names hproduct hplace).resolve_left hout

theorem mem_modified_iff {rep : Report} (h : r.run fs b files = (fs', b', .ok rep)) {p : Path} :
    p ∈ rep.modified ↔ p ∈ files ∧ ∃ content, r.fate fs p = .modified content := by
  obtain ⟨os, _, hos, -, -, rfl⟩ := performAll_of_run_ok h
  rw [modified_of_outcomes hos, List.mem_filter]
  cases r.fate fs p <;> simp [Fate.isModified]

theorem written_of_run {rep : Report} {p : Path} {content : Bytes} {names : List String}
    (h : r.run fs b files = (fs', b', .ok rep)) (hcheck : r.check = false) (hagrees : r.Agrees fs files names)
    (hp : p ∈ files) (hproduct : r.product fs p = some content)
    (hplace : fs.resolve (r.destination p) = .ok (.fromRoot names)) : fs'.entry? names = some (.file content) := by
  obtain ⟨_, steps, -, hperformed, hwrites, -⟩ := performAll_of_run_ok h
  rw [hcheck, if_neg Bool.false_ne_true] at hwrites
  refine written_of_performAll steps hperformed (by rw [hwrites]; exact mem_results_iff.2 ⟨p, hp, content, hproduct, rfl⟩)
    hplace (fun w hw hw' => ?_)
  rw [hwrites] at hw
  obtain ⟨q, hq, other, hother, rfl⟩ := mem_results_iff.1 hw
  exact (hagrees p hp q hq content other hproduct hother hplace hw').symm

/-- **If a run that has come to its end has left alone what is outside a directory, all results land there.** -/
theorem lands_of_keptOutside {rep : Report} (h : r.run fs b files = (fs', b', .ok rep)) (hcheck : r.check = false)
    (hagrees : ∀ names, ¬ dir <+: names → r.Agrees fs files names) (hkept : Files.KeptOutside dir fs fs') :
    ∀ p ∈ files, r.Lands fs dir p := by
  intro p hp content names hproduct hplace
  by_cases hout : dir <+: names
  · exact .inl hout
  · have hwritten := written_of_run h hcheck (hagrees names hout) hp hproduct hplace
    rcases hkept names hout with hsame | ⟨-, hdir⟩
    · exact .inr (hsame ▸ hwritten)
    · rw [hwritten] at hdir; cases hdir

/-! ## Destinations -/

theorem destination_of_below {p out rel : Path} (hout : r.outDir = some out) (hrel : p.relativeTo? r.root = some rel) :
    r.destination p = ⟨out.origin, out.names ++ rel.names⟩ := by
  have hrelative : rel.isAbsolute = false := by
    unfold Path.relativeTo? at hrel
    split at hrel <;> cases hrel
    rfl
  rw [destination, hout, relative, hrel]
  exact if_neg (by rw [Option.getD_some, hrelative]; exact Bool.false_ne_true)

/-- **The result of a file below the root goes to the same place in the directory for results**, if no link leads out of
there. -/
theorem straight_of_below {p out rel : Path} (hout : r.outDir = some out) (hstraight : Files.Straight fs out.names)
    (hlinks : Files.LinkFree fs out.names) (hrel : p.relativeTo? r.root = some rel) (hup : ".." ∉ rel.names) :
    Files.Straight fs (r.destination p).names := by
  rw [destination_of_below hout hrel]
  refine ⟨fun hmem => (List.mem_append.1 hmem).elim hstraight.plain hup, fun before target hpre => ?_⟩
  rcases List.prefix_or_prefix_of_prefix hpre (List.prefix_append out.names rel.names) with hbefore | hafter
  · exact hstraight.unlinked before target hbefore
  · exact hlinks before target hafter

theorem resolve_of_below {p out rel : Path} (hout : r.outDir = some out) (hstraight : Files.Straight fs out.names)
    (hlinks : Files.LinkFree fs out.names) (hrel : p.relativeTo? r.root = some rel) (hup : ".." ∉ rel.names) :
    fs.resolve (r.destination p) = .ok (.fromRoot (out.names ++ rel.names)) := by
  rw [Files.resolve_of_straight (straight_of_below hout hstraight hlinks hrel hup), destination_of_below hout hrel]

theorem destination_of_not_below {p : Path} (habsolute : p.isAbsolute = true) (hrel : p.relativeTo? r.root = none) :
    r.destination p = p := by
  rw [destination, relative, hrel, Option.getD_none]
  cases r.outDir with
  | none => rfl
  | some out => exact if_pos habsolute

/-- A file that is modified could be read, and holds other bytes. -/
theorem read_of_modified {p : Path} {content : Bytes} (h : r.fate fs p = .modified content) :
    ∃ old, fs.read p = .ok old ∧ old ≠ content := by
  unfold fate Transformer.fate at h
  cases hread : fs.read p with
  | error e => rw [hread] at h; cases h
  | ok old =>
    rw [hread] at h
    simp only [Except.toOption] at h
    split at h
    · cases h
    · next cs hdecode =>
      split at h
      · cases h
      · next t htransform =>
        split at h
        · next hchanged =>
          cases h
          refine ⟨old, rfl, fun heq => ?_⟩
          have hcode : t.code.toList = cs := by
            rw [heq, Bytes.ofString, Utf8.decode_encode] at hdecode
            exact Except.ok.inj hdecode
          have hgiven := given_of_transform htransform
          rw [Transformed.changed, hgiven, ← hcode, String.ofList_toList] at hchanged
          simp at hchanged
        · cases h

/-- A file that is its own destination is written where it was read: with other bytes exactly if it is modified. -/
theorem read_of_product {p : Path} {content : Bytes} (hself : r.destination p = p)
    (hproduct : r.product fs p = some content) :
    ∃ names old, fs.locate p = .ok names ∧ fs.resolve (r.destination p) = .ok (.fromRoot names) ∧
      fs.entry? names = some (.file old) ∧ (old = content ↔ r.fate fs p = .unchanged) := by
  obtain ⟨old, hread, hsame⟩ : ∃ old, fs.read p = .ok old ∧ (old = content ↔ r.fate fs p = .unchanged) := by
    cases hfate : r.fate fs p with
    | failed => rw [product_of_failed hfate] at hproduct; cases hproduct
    | unchanged =>
      rw [product_of_unchanged hfate] at hproduct
      split at hproduct
      · cases hread : fs.read p with
        | error e => rw [hread] at hproduct; cases hproduct
        | ok old => rw [hread] at hproduct; exact ⟨old, rfl, iff_of_true (Option.some.inj hproduct) rfl⟩
      · cases hproduct
    | modified other =>
      rw [product_of_modified hfate, Option.some.injEq] at hproduct
      obtain ⟨old, hread, hne⟩ := read_of_modified hfate
      exact ⟨old, hread, iff_of_false (hproduct ▸ hne) (by simp)⟩
  obtain ⟨names, hlocate, hentry⟩ := Files.read_ok hread
  exact ⟨names, old, hlocate, by rw [hself]; exact Files.resolve_of_locate hlocate, hentry, hsame⟩

end RunPlan

namespace Workspace

/-! ## Files that are picked -/

/-- What a run of a workspace does. -/
def plan (w : Workspace) (out : Option Path) (check : Bool) : RunPlan :=
  ⟨w.parse, w.root, w.config.transformer, out, check⟩

def picks (w : Workspace) (fs : Files) (git : Listing) : Option (List Path) → Except Refusal (List Path)
  | some ps => .ok (ps.map (w.root ++ ·))
  | none => w.sources fs git

variable {α : Type} [Tellable α] {w : Workspace} {fs fs' : Files} {b b' : Bus α} {git : Listing} {out : Path}

theorem run_of_picks {files : Option (List Path)} {ps : List Path} {check : Bool} (hout : w.outDir fs = .ok (some out))
    (hps : w.picks fs git files = .ok ps) : w.run fs b git files check = (w.plan (some out) check).run fs b ps := by
  unfold run
  rw [hout]
  cases files with
  | some qs => cases hps; rfl
  | none =>
    have hsources : w.sources fs git = .ok ps := hps
    rw [hsources]
    rfl

theorem resolve_of_project {p q : Path} (h : Project.resolve fs p = .ok q) : fs.resolve p = .ok q := by
  unfold Project.resolve at h
  cases hresolve : fs.resolve p with
  | error e => rw [hresolve] at h; cases h
  | ok q' => rw [hresolve] at h; cases h; rfl

/-- The root of a workspace that has been opened is a place without links. -/
theorem root_of_openAt {parse : Parse} {root : Path} {config : Option Config}
    (h : (openAt parse fs b root config).2 = .ok w) :
    fs.resolve root = .ok w.root := by
  unfold openAt at h
  cases hroot : Project.resolve fs root with
  | error e => rw [hroot] at h; cases h
  | ok root' =>
    have hresolve := resolve_of_project hroot
    rw [hroot] at h
    cases config with
    | some c => cases h; exact hresolve
    | none =>
      dsimp only at h
      split at h
      · cases h; exact hresolve
      · split at h
        · split at h <;> cases h
        · cases h

theorem resolve_of_outDir (h : w.outDir fs = .ok (some out)) : ∃ p, fs.resolve p = .ok out := by
  unfold outDir at h
  split at h
  · cases h
  · next s _ =>
    split at h
    · cases h
    · cases hresolve : Project.resolve fs (w.root ++ Path.ofString s) with
      | error e => rw [hresolve] at h; cases h
      | ok q => rw [hresolve] at h; cases h; exact ⟨_, resolve_of_project hresolve⟩

/-! ## Sources -/

theorem resolve_of_select {d : Discovery} {cs picked : List Path} {entry : String}
    (h : d.select fs cs entry = .ok picked) (hcs : ∀ p ∈ cs, ∃ q, fs.resolve q = .ok p) :
    ∀ p ∈ picked, ∃ q, fs.resolve q = .ok p := by
  intro p hp
  unfold Discovery.select at h
  cases htarget : Project.resolve fs (d.root ++ Path.ofString entry) with
  | error e => rw [htarget] at h; cases h
  | ok target =>
    rw [htarget] at h
    cases h
    dsimp only at hp
    split at hp
    · split at hp
      · rw [List.mem_singleton] at hp
        exact ⟨_, hp ▸ resolve_of_project htarget⟩
      · cases hp
    · split at hp
      · exact hcs p (List.mem_filter.1 hp).1
      · cases hp

theorem resolve_of_discover {d : Discovery} {scanPaths : List String} {ps : List Path}
    (h : d.discover fs git scanPaths = .ok ps) : ∀ p ∈ ps, ∃ q, fs.resolve q = .ok p := by
  unfold Discovery.discover at h
  obtain ⟨cs, hcandidates, h⟩ := exists_of_bind h
  have hresolved : ∀ p ∈ cs, ∃ q, fs.resolve q = .ok p := fun p hp =>
    have ⟨q, _, hq⟩ := (mem_mapM_iff hcandidates p).1 hp
    ⟨q, resolve_of_project hq⟩
  split at h
  · cases h
    exact fun p hp => hresolved p (Path.mem_sorted_iff.1 hp)
  · obtain ⟨selected, hselected, h⟩ := exists_of_bind h
    cases h
    intro p hp
    obtain ⟨picked, hpicked, hmem⟩ := List.mem_flatten.1 (Path.mem_sorted_iff.1 hp)
    obtain ⟨entry, -, hentry⟩ := (mem_mapM_iff hselected picked).1 hpicked
    exact resolve_of_select hentry hresolved p hmem

/-- Sources are places without links, and none lies in the directory for results. -/
theorem resolve_of_sources {ps : List Path} (hout : w.outDir fs = .ok (some out)) (h : w.sources fs git = .ok ps) :
    ∀ p ∈ ps, (∃ q, fs.resolve q = .ok p) ∧ out.isAbove p = false := by
  unfold sources at h
  obtain ⟨found, hfound, h⟩ := exists_of_bind h
  rw [hout] at h
  cases h
  intro p hp
  obtain ⟨hmem, hnot⟩ := List.mem_filter.1 hp
  exact ⟨resolve_of_discover hfound p hmem, by simpa using hnot⟩

/-! ## What a run of a workspace leaves alone -/

theorem isAbsolute_of_picks {files : Option (List Path)} {ps : List Path} (hroot : w.root.isAbsolute = true)
    (hout : w.outDir fs = .ok (some out)) (hps : w.picks fs git files = .ok ps) : ∀ p ∈ ps, p.isAbsolute = true := by
  intro p hp
  cases files with
  | none =>
    obtain ⟨q, hq⟩ := (resolve_of_sources hout hps p hp).1
    rw [(Files.straight_of_resolve hq).1]
    rfl
  | some qs =>
    cases hps
    obtain ⟨q, -, rfl⟩ := List.mem_map.1 hp
    change (Path.append w.root q).isAbsolute = true
    unfold Path.append
    split
    · next habsolute => exact habsolute
    · exact hroot

/-- **Where the results of a run stay.**  A run leaves alone what is outside the directory for results if all results
land there; if it comes to its end, only then.  The result of a file below the root goes to the same place in that
directory, if no link leads out of it.  A file that does not lie below the root is written over where it was read, if it
is modified. -/
theorem run_contained {parse : Parse} {fs₀ : Files} {b₀ : Bus α} {root : Path} {config : Option Config}
    {files : Option (List Path)} {ps : List Path} {check : Bool} {res : Except Refusal Report}
    (hopen : (openAt parse fs₀ b₀ root config).2 = .ok w) (hout : w.outDir fs = .ok (some out))
    (hps : w.picks fs git files = .ok ps) (hrun : w.run fs b git files check = (fs', b', res)) :
    ((∀ p ∈ ps, (w.plan (some out) check).Lands fs out.names p) → Files.KeptOutside out.names fs fs') ∧
    (Files.LinkFree fs out.names → ∀ p ∈ ps, ∀ rel, p.relativeTo? w.root = some rel → ".." ∉ rel.names →
      fs.resolve ((w.plan (some out) check).destination p) = .ok (.fromRoot (out.names ++ rel.names))) ∧
    ∀ rep, res = .ok rep → check = false → (∀ names, (w.plan (some out) check).Agrees fs ps names) →
      (Files.KeptOutside out.names fs fs' → ∀ p ∈ ps, (w.plan (some out) check).Lands fs out.names p) ∧
      ∀ p ∈ ps, p.relativeTo? w.root = none → ∀ content, (w.plan (some out) check).fate fs p = .modified content →
        ∃ names old, fs.locate p = .ok names ∧ fs.entry? names = some (.file old) ∧ old ≠ content ∧
          fs'.entry? names = some (.file content) := by
  rw [run_of_picks hout hps] at hrun
  obtain ⟨_, hplace⟩ := resolve_of_outDir hout
  refine ⟨RunPlan.keptOutside_of_lands hrun, fun hlinks p _ rel hrel hup =>
    RunPlan.resolve_of_below rfl (Files.straight_of_resolve hplace).2 hlinks hrel hup, fun rep hrep hcheck hagrees => ?_⟩
  subst hrep
  refine ⟨RunPlan.lands_of_keptOutside hrun hcheck (fun names _ => hagrees names), fun p hp hrel content hfate => ?_⟩
  have hroot : w.root.isAbsolute = true := by rw [(Files.straight_of_resolve (root_of_openAt hopen)).1]; rfl
  have hself : (w.plan (some out) check).destination p = p :=
    RunPlan.destination_of_not_below (isAbsolute_of_picks hroot hout hps p hp) hrel
  have hproduct : (w.plan (some out) check).product fs p = some content :=
    RunPlan.product_of_modified hfate
  obtain ⟨names, old, hlocate, hdestination, hentry, hsame⟩ := RunPlan.read_of_product hself hproduct
  refine ⟨names, old, hlocate, hentry, fun heq => ?_, RunPlan.written_of_run hrun hcheck (hagrees names) hp hproduct hdestination⟩
  have hunchanged := hsame.1 heq
  rw [hfate] at hunchanged
  cases hunchanged

/-- A workspace whose scan path leads out of its root, to a file that is to be modified. -/
def strayWorkspace : Workspace :=
  ⟨Grammar.parse, .fromRoot ["w", "ws"], { Config.standard with outDir := some "out", scanPaths := ["../ext.js"] }⟩

@[inherit_doc strayWorkspace]
def strayFiles : Files :=
  ⟨[(["w"], .directory), (["w", "ws"], .directory),
    (["w", "ext.js"], .file (Bytes.ofString "class A { render() { return <Foo/>; } }"))]⟩

theorem run_contained_stray : strayWorkspace.outDir strayFiles = .ok (some (.fromRoot ["w", "ws", "out"])) ∧
    ∃ fs' b' rep, strayWorkspace.run strayFiles Bus.keeping .unavailable none false = (fs', b', .ok rep) ∧
      rep.modified = [.fromRoot ["w", "ext.js"]] ∧ fs'.entry? ["w", "ext.js"] ≠ strayFiles.entry? ["w", "ext.js"] ∧
      ¬ Files.KeptOutside ["w", "ws", "out"] strayFiles fs' := by
  have hopen : (openAt Grammar.parse strayFiles Bus.keeping strayWorkspace.root (some strayWorkspace.config)).2 =
      .ok strayWorkspace := rfl
  have hout : strayWorkspace.outDir strayFiles = .ok (some (.fromRoot ["w", "ws", "out"])) := by decide +kernel
  have hpicks : strayWorkspace.picks strayFiles .unavailable none = .ok [.fromRoot ["w", "ext.js"]] := by decide +kernel
  have hends : (strayWorkspace.run strayFiles Bus.keeping .unavailable none false).2.2.toOption.map
      (·.modified) = some [.fromRoot ["w", "ext.js"]] := by decide +kernel
  obtain ⟨fs', b', rep, hrun, hmodified⟩ : ∃ fs' b' rep, strayWorkspace.run strayFiles Bus.keeping
      .unavailable none false = (fs', b', .ok rep) ∧ rep.modified = [.fromRoot ["w", "ext.js"]] := by
    revert hends
    generalize strayWorkspace.run strayFiles Bus.keeping .unavailable none false = run
    obtain ⟨fs', b', (e | rep)⟩ := run
    · intro h; cases h
    · exact fun h => ⟨fs', b', rep, rfl, Option.some.inj h⟩
  have hplanned := hrun
  rw [run_of_picks hout hpicks] at hplanned
  obtain ⟨-, content, hfate⟩ := (RunPlan.mem_modified_iff hplanned).1 (hmodified ▸ List.mem_cons_self)
  have hagrees : ∀ names, (strayWorkspace.plan (some (.fromRoot ["w", "ws", "out"])) false).Agrees strayFiles
      [.fromRoot ["w", "ext.js"]] names := by
    intro names p hp q hq content other hcontent hother _ _
    rw [List.mem_singleton] at hp hq
    rw [hp] at hcontent
    rw [hq, hcontent] at hother
    exact Option.some.inj hother
  obtain ⟨-, -, hended⟩ := run_contained hopen hout hpicks hrun
  obtain ⟨-, hstray⟩ := hended rep rfl rfl hagrees
  obtain ⟨names, old, hlocate, hold, hne, hnew⟩ := hstray _ List.mem_cons_self rfl content hfate
  have hnames : names = ["w", "ext.js"] := by
    have hplace : strayFiles.locate (.fromRoot ["w", "ext.js"]) = .ok ["w", "ext.js"] := by decide +kernel
    exact Except.ok.inj (hlocate.symm.trans hplace)
  rw [hnames] at hold hnew
  have hchanged : fs'.entry? ["w", "ext.js"] ≠ strayFiles.entry? ["w", "ext.js"] := by
    rw [hold, hnew]
    simpa using hne.symm
  refine ⟨hout, fs', b', rep, hrun, hmodified, hchanged, fun hkept => hchanged ?_⟩
  rw [Files.Keeps.entry hkept (by decide) hold, hold]

/-! ## Runs over sources -/

theorem picks_of_run {files : Option (List Path)} {check : Bool} {rep : Report} (hout : w.outDir fs = .ok (some out))
    (hrun : w.run fs b git files check = (fs', b', .ok rep)) : ∃ ps, w.picks fs git files = .ok ps := by
  cases files with
  | some qs => exact ⟨_, rfl⟩
  | none =>
    cases hps : w.sources fs git with
    | ok ps => exact ⟨ps, hps⟩
    | error e =>
      unfold run at hrun
      rw [hout, hps] at hrun
      cases hrun

theorem relativeTo?_eq_none_iff {p base : Path} (h : p.origin = base.origin) :
    p.relativeTo? base = none ↔ ¬ base.names <+: p.names := by
  unfold Path.relativeTo?
  rw [h, ← List.isPrefixOf_iff_prefix]
  simp

/-- A source whose result goes elsewhere than into the directory for results does not lie below the root, and its result
goes where it stands. -/
theorem source_of_outside {ps : List Path} {names : List String} {check : Bool} (hroot : w.root.origin = .root)
    (hout : w.outDir fs = .ok (some out)) (hlinks : Files.LinkFree fs out.names) (hps : w.sources fs git = .ok ps)
    {p : Path} (hp : p ∈ ps) (hplace : fs.resolve ((w.plan (some out) check).destination p) = .ok (.fromRoot names))
    (houtside : ¬ out.names <+: names) :
    p = .fromRoot names ∧ (w.plan (some out) check).destination p = p ∧ ¬ w.root.names <+: p.names := by
  obtain ⟨_, hplaced⟩ := resolve_of_outDir hout
  obtain ⟨_, hresolved⟩ := (resolve_of_sources hout hps p hp).1
  obtain ⟨hrooted, hstraight⟩ := Files.straight_of_resolve hresolved
  have horigin : p.origin = w.root.origin := by rw [hroot, hrooted]; rfl
  cases hrel : p.relativeTo? w.root with
  | some rel =>
    have hup : ".." ∉ rel.names := by
      unfold Path.relativeTo? at hrel
      split at hrel
      · cases hrel
        exact fun hmem => hstraight.plain (List.mem_of_mem_drop hmem)
      · cases hrel
    have hbelow := RunPlan.resolve_of_below (r := w.plan (some out) check) rfl (Files.straight_of_resolve hplaced).2
      hlinks hrel hup
    rw [hplace] at hbelow
    have hnames : names = out.names ++ rel.names := by simpa [Path.fromRoot] using hbelow
    exact absurd (hnames ▸ List.prefix_append _ _) houtside
  | none =>
    have hself : (w.plan (some out) check).destination p = p :=
      RunPlan.destination_of_not_below (by rw [hrooted]; rfl) hrel
    rw [hself, Files.resolve_of_straight hstraight] at hplace
    refine ⟨?_, hself, (relativeTo?_eq_none_iff horigin).1 hrel⟩
    rw [← Except.ok.inj hplace]
    exact hrooted

theorem agrees_of_sources {ps : List Path} {names : List String} {check : Bool} (hroot : w.root.origin = .root)
    (hout : w.outDir fs = .ok (some out)) (hlinks : Files.LinkFree fs out.names) (hps : w.sources fs git = .ok ps)
    (houtside : ¬ out.names <+: names) : (w.plan (some out) check).Agrees fs ps names := by
  intro p hp q hq content other hcontent hother hplace hplace'
  have hpq : p = q := (source_of_outside hroot hout hlinks hps hp hplace houtside).1.trans
    (source_of_outside hroot hout hlinks hps hq hplace' houtside).1.symm
  rw [hpq, hother] at hcontent
  exact (Option.some.inj hcontent).symm

/-- A source that is modified and does not lie below the root has its result elsewhere than in the directory for
results, if that is no file. -/
theorem not_lands_of_modified {ps : List Path} {check : Bool} {content : Bytes} (hroot : w.root.origin = .root)
    (hout : w.outDir fs = .ok (some out)) (hfile : ∀ content, fs.entry? out.names ≠ some (.file content))
    (hps : w.sources fs git = .ok ps) {p : Path} (hp : p ∈ ps)
    (hfate : (w.plan (some out) check).fate fs p = .modified content) (hbelow : ¬ w.root.names <+: p.names) :
    ¬ (w.plan (some out) check).Lands fs out.names p := by
  obtain ⟨⟨_, hresolved⟩, habove⟩ := resolve_of_sources hout hps p hp
  obtain ⟨hrooted, hstraight⟩ := Files.straight_of_resolve hresolved
  have horigin : p.origin = w.root.origin := by rw [hroot, hrooted]; rfl
  have hself : (w.plan (some out) check).destination p = p :=
    RunPlan.destination_of_not_below (by rw [hrooted]; rfl) ((relativeTo?_eq_none_iff horigin).2 hbelow)
  have hproduct : (w.plan (some out) check).product fs p = some content :=
    RunPlan.product_of_modified hfate
  obtain ⟨names, old, -, hplace, hentry, hsame⟩ := RunPlan.read_of_product hself hproduct
  intro hlands
  rcases hlands content names hproduct hplace with hin | hthere
  -- No source lies below the directory for results, so this one would have to stand at its place.
  · rw [hself, Files.resolve_of_straight hstraight] at hplace
    have hnames : p.names = names := by simpa [Path.fromRoot] using hplace
    obtain ⟨_, hplaced⟩ := resolve_of_outDir hout
    have houtorigin : out.origin = p.origin := by
      rw [(Files.straight_of_resolve hplaced).1, hrooted]; rfl
    have hat : out.names = names := by
      simpa [Path.isAbove, houtorigin, hnames, hin] using habove
    exact hfile old (hat ▸ hentry)
  · rw [hentry] at hthere
    have hunchanged := hsame.1 (by simpa using hthere)
    rw [hfate] at hunchanged
    cases hunchanged

/-- **A run over the sources leaves alone what is outside exactly if all that it modifies lies below the root**, where the
directory for results is no file and holds no links. -/
theorem sources_contained_iff {parse : Parse} {fs₀ : Files} {b₀ : Bus α} {root : Path} {config : Option Config} {rep : Report}
    (hopen : (openAt parse fs₀ b₀ root config).2 = .ok w) (hout : w.outDir fs = .ok (some out))
    (hlinks : Files.LinkFree fs out.names) (hfile : ∀ content, fs.entry? out.names ≠ some (.file content))
    (hrun : w.run fs b git none false = (fs', b', .ok rep)) :
    Files.KeptOutside out.names fs fs' ↔ ∀ p ∈ rep.modified, w.root.names <+: p.names := by
  obtain ⟨ps, hpicks⟩ := picks_of_run hout hrun
  have hps : w.sources fs git = .ok ps := hpicks
  have hroot : w.root.origin = .root := by rw [(Files.straight_of_resolve (root_of_openAt hopen)).1]; rfl
  rw [run_of_picks hout hpicks] at hrun
  constructor
  · intro hkept p hp
    obtain ⟨hmem, content, hfate⟩ := (RunPlan.mem_modified_iff hrun).1 hp
    have hlands := RunPlan.lands_of_keptOutside hrun rfl (fun _ => agrees_of_sources hroot hout hlinks hps) hkept p hmem
    by_contra hnot
    exact not_lands_of_modified hroot hout hfile hps hmem hfate hnot hlands
  · intro hbelow
    refine RunPlan.keptOutside_of_lands hrun (fun p hp content names hproduct hplace => ?_)
    by_cases hin : out.names <+: names
    · exact .inl hin
    -- What goes elsewhere is its own destination, and as it is not modified it stands there already.
    · obtain ⟨-, hself, hnot⟩ := source_of_outside hroot hout hlinks hps hp hplace hin
      obtain ⟨at_, old, -, hat, hentry, hsame⟩ := RunPlan.read_of_product hself hproduct
      have hnames : at_ = names := by simpa [Path.fromRoot] using hat.symm.trans hplace
      have hunchanged : (w.plan (some out) false).fate fs p = .unchanged := by
        cases hfate : (w.plan (some out) false).fate fs p with
        | failed => rw [RunPlan.product_of_failed hfate] at hproduct; cases hproduct
        | unchanged => rfl
        | modified other => exact absurd (hbelow p ((RunPlan.mem_modified_iff hrun).2 ⟨hp, other, hfate⟩)) hnot
      exact .inr (by rw [← hnames, hentry, hsame.2 hunchanged])

end Workspace
end TagAlias
