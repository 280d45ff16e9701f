import TagAlias.Proofs.Workspace.Fate
/-!
# What a failing file keeps from the others

A file that cannot be read or transformed keeps nothing from the others: a run writes for them what it would write without
that file.  A result that cannot be written ends the run where it stands.  What a run does to the files is therefore the
writing of its results one after another, up to the first that fails (`performAll_eq`), and nothing is reported unless all
of them are written (`run_isolates`).
-/
namespace TagAlias

namespace Files

/-- Writes files one after another, up to the first that cannot be written. -/
def writeAll (fs : Files) : List (Path × Bytes) → Change
  | [] => (fs, none)
  | (p, content) :: ws =>
    match fs.writeInto p content with
    | (fs, none) => writeAll fs ws
    | (fs, some e) => (fs, some e)

theorem writeAll_cons_ok {fs fs₁ : Files} {p : Path} {content : Bytes} (h : fs.writeInto p content = (fs₁, none))
    (ws : List (Path × Bytes)) : fs.writeAll ((p, content) :: ws) = fs₁.writeAll ws := by
  rw [writeAll, h]

theorem writeAll_cons_error {fs fs₁ : Files} {p : Path} {content : Bytes} {e : FileFault × Path}
    (h : fs.writeInto p content = (fs₁, some e)) (ws : List (Path × Bytes)) :
    fs.writeAll ((p, content) :: ws) = (fs₁, some e) := by
  rw [writeAll, h]

end Files

namespace RunPlan

variable {α : Type} [Tellable α] {r : RunPlan} {fs : Files} {b : Bus α}

/-! ## Steps -/

/-- How steps end that refuse no message. -/
def ending : Option (FileFault × Path) → Except Refusal Unit
  | none => .ok ()
  | some (e, p) => .error (.file e p)

theorem Comes.cons {fs' fs₁ : Files} {b' b₁ : Bus α} {a a' : Action α} {steps : List (Action α)}
    (hstep : perform fs b a = (fs₁, b₁, .ok ())) (h : Comes fs₁ b₁ steps a' fs' b') : Comes fs b (a :: steps) a' fs' b' := by
  obtain ⟨before, after, hsteps, hbefore⟩ := h
  exact ⟨a :: before, after, by rw [hsteps]; rfl, by rw [performAll_cons hstep, hbefore]⟩

/-- **Steps whose messages are taken do to the files what their writes do.** -/
theorem performAll_eq : ∀ (steps : List (Action α)) (fs : Files) (b : Bus α),
    (∀ m fs' b', Comes fs b steps (.send m) fs' b' → (b'.send fs' m).2 = .ok ()) →
    ∃ b', performAll fs b steps = ((fs.writeAll (writes steps)).1, b', ending (fs.writeAll (writes steps)).2)
  | [], fs, b, _ => ⟨b, rfl⟩
  | .send m :: steps, fs, b, h => by
    have htaken : (b.send fs m).2 = .ok () := h m fs b ⟨[], steps, rfl, rfl⟩
    have hstep : perform fs b (.send m) = (fs, (b.send fs m).1, .ok ()) := by
      rw [← htaken]; rfl
    obtain ⟨b', hb'⟩ := performAll_eq steps fs (b.send fs m).1 (fun m' fs' b' hcomes => h m' fs' b' (hcomes.cons hstep))
    exact ⟨b', by rw [performAll_cons hstep, hb', writes_send]⟩
  | .write p content :: steps, fs, b, h => by
    rw [writes_write]
    cases hwrite : fs.writeInto p content with
    | mk fs₁ fault =>
      cases fault with
      | none =>
        have hstep : perform fs b (.write p content) = (fs₁, b, .ok ()) := by rw [perform, hwrite]
        obtain ⟨b', hb'⟩ := performAll_eq steps fs₁ b (fun m fs' b' hcomes => h m fs' b' (hcomes.cons hstep))
        exact ⟨b', by rw [performAll_cons hstep, hb', Files.writeAll_cons_ok hwrite]⟩
      | some e =>
        refine ⟨b, ?_⟩
        rw [Files.writeAll_cons_error hwrite, performAll, perform, hwrite]
        rfl

/-! ## Files that fail -/

/-- No message of a run is refused. -/
def Unrefused (r : RunPlan) (fs : Files) (b : Bus α) (files : List Path) : Prop :=
  ∀ m fs' b', r.ComesTo fs b files (.send m) fs' b' → (b'.send fs' m).2 = .ok ()

/-- A bus refuses no message if nobody listens to its texts. -/
theorem unrefused_of_receiver (r : RunPlan) (fs : Files) {b : Bus α} (files : List Path) (h : b.receiver ≠ .texts) :
    r.Unrefused fs b files := by
  rintro m fs' b' ⟨all, -, before, after, -, hbefore⟩
  have hreceiver := (hears_of_performAll before hbefore).receiver
  unfold Bus.send
  cases hb : b'.receiver with
  | texts => exact absurd (hreceiver.symm.trans hb) h
  | absent => rfl
  | messages => rfl

/-- What a run writes, if it writes. -/
def written (r : RunPlan) (fs : Files) (files : List Path) : List (Path × Bytes) :=
  if r.check then [] else r.results fs files

/-- What is no failure is kept among the files that do not fail. -/
theorem filter_sound {keep : Path → Bool} (hkeep : ∀ p, keep p = true → r.fate fs p ≠ .failed) (files : List Path) :
    (files.filter (fun p => r.fate fs p ≠ .failed)).filter keep = files.filter keep := by
  rw [List.filter_filter]
  refine List.filter_congr (fun p _ => ?_)
  cases hp : keep p with
  | false => rfl
  | true => simpa using hkeep p hp

theorem results_filter (r : RunPlan) (fs : Files) (files : List Path) :
    r.results fs (files.filter (fun p => r.fate fs p ≠ .failed)) = r.results fs files := by
  induction files with
  | nil => rfl
  | cons p files ih =>
    rw [List.filter_cons, results_cons, ← ih]
    split
    · rw [results_cons]
    · next hfailed => rw [product_of_failed (by simpa using hfailed)]; rfl

/-! ## Reports -/

theorem mem_setText_iff (known : List (Path × String)) (p q : Path) (s : String) :
    q ∈ (report.setText known p s).map (·.1) ↔ q = p ∨ q ∈ known.map (·.1) := by
  unfold report.setText
  split
  · next hany =>
    obtain ⟨e, he, heq⟩ := List.any_eq_true.1 hany
    have hkeys : (known.map (fun e => if e.1 == p then (p, s) else e)).map (·.1) = known.map (·.1) := by
      rw [List.map_map]
      refine List.map_congr_left (fun e _ => ?_)
      by_cases h : e.1 = p <;> simp [h]
    rw [hkeys]
    refine ⟨.inr, ?_⟩
    rintro (rfl | h)
    · exact List.mem_map.2 ⟨e, he, eq_of_beq heq⟩
    · exact h
  · simp [or_comm]

theorem mem_foldl_setText {step : List (Path × String) → Path × Outcome → List (Path × String)}
    (hunread : ∀ known p e, step known (p, .unread e) = report.setText known p e)
    (hfailed : ∀ known p f, step known (p, .failed f) = report.setText known p f.display)
    (hdone : ∀ known p t, step known (p, .done t) = known) {files : List Path} {os : List (Path × Outcome)}
    (hos : Outcomes r fs files os) (q : Path) : ∀ known : List (Path × String),
      q ∈ (os.foldl step known).map (·.1) ↔ q ∈ known.map (·.1) ∨ q ∈ files ∧ r.fate fs q = .failed := by
  induction hos with
  | nil => intro known; simp
  | @cons p x files os hx _ ih =>
    obtain ⟨p, o⟩ := x
    obtain ⟨rfl, hsettles⟩ := hx
    intro known
    rw [List.foldl_cons, ih, List.mem_cons]
    have hkept : r.fate fs p ≠ .failed → (q ∈ known.map (·.1) ∨ q ∈ files ∧ r.fate fs q = .failed ↔
        q ∈ known.map (·.1) ∨ (q = p ∨ q ∈ files) ∧ r.fate fs q = .failed) := by
      intro hne
      refine or_congr_right ⟨fun h => ⟨.inr h.1, h.2⟩, fun h => ⟨h.1.resolve_left ?_, h.2⟩⟩
      rintro rfl
      exact hne h.2
    have hadded : r.fate fs p = .failed → ((q = p ∨ q ∈ known.map (·.1)) ∨ q ∈ files ∧ r.fate fs q = .failed ↔
        q ∈ known.map (·.1) ∨ (q = p ∨ q ∈ files) ∧ r.fate fs q = .failed) := by
      intro heq
      by_cases hq : q = p
      · subst hq; simp [heq]
      · simp [hq]
    cases hsettles with
    | unread e h => rw [hunread, mem_setText_iff]; exact hadded h
    | failed f h => rw [hfailed, mem_setText_iff]; exact hadded h
    | modified t _ h => rw [hdone]; exact hkept (by rw [h]; simp)
    | unchanged t _ h _ => rw [hdone]; exact hkept (by rw [h]; simp)

/-- **The files that are told as failed are those whose fate it is.** -/
theorem mem_failed_iff {files : List Path} {os : List (Path × Outcome)} (hos : Outcomes r fs files os) (q : Path) :
    q ∈ (report os).failed.map (·.1) ↔ q ∈ files ∧ r.fate fs q = .failed := by
  refine (mem_foldl_setText (fun _ _ _ => rfl) (fun _ _ _ => rfl) (fun _ _ _ => rfl) hos q []).trans ?_
  simp

/-! ## Runs -/

/-- A run whose messages are taken comes to its end exactly if all its results are written. -/
theorem run_eq (hparse : r.parse.IsSound) {files : List Path} (h : r.Unrefused fs b files) :
    ∃ b' os, Outcomes r fs files os ∧ r.run fs b files = ((fs.writeAll (r.written fs files)).1, b',
      (ending (fs.writeAll (r.written fs files)).2).map (fun _ => report os)) := by
  obtain ⟨os, hos, houtcomes⟩ := exists_outcomes hparse fs files
  have hsteps := steps_of_mapM α hos
  obtain ⟨b', hperformed⟩ := performAll_eq _ fs b (fun m fs' b' hcomes => h m fs' b' ⟨_, hsteps, hcomes⟩)
  rw [writes_of_all houtcomes] at hperformed
  refine ⟨b', os, houtcomes, ?_⟩
  unfold run written
  rw [hos]
  dsimp only
  rw [hperformed]
  generalize (fs.writeAll (if r.check = true then [] else r.results fs files)).2 = fault
  cases fault <;> rfl

/-- **What a failing file keeps from the others.**  A run whose messages are taken does to the files what writing its
results does.  If all of them are written it reports every file by its fate, the failing ones as failed; if one cannot be
written, the run ends there and reports nothing.  Files that fail before make no difference to the others: a run over
other such files besides the same sound ones leaves the same files behind, ends alike, and reports the sound ones alike. -/
theorem run_isolates (r : RunPlan) (hparse : r.parse.IsSound) (fs : Files) (b : Bus α) (files : List Path)
    (h : r.Unrefused fs b files) :
    (r.run fs b files).1 = (fs.writeAll (r.written fs files)).1 ∧
    (∀ e p, (fs.writeAll (r.written fs files)).2 = some (e, p) →
      (r.run fs b files).2.2 = .error (.file e p)) ∧
    ((fs.writeAll (r.written fs files)).2 = none → ∃ rep, (r.run fs b files).2.2 = .ok rep ∧
      rep.modified = files.filter (fun p => (r.fate fs p).isModified) ∧
      rep.unchanged = files.filter (fun p => r.fate fs p = .unchanged) ∧
      ∀ p, p ∈ rep.failed.map (·.1) ↔ p ∈ files ∧ r.fate fs p = .failed) ∧
    ∀ others, r.Unrefused fs b others →
      others.filter (fun p => r.fate fs p ≠ .failed) = files.filter (fun p => r.fate fs p ≠ .failed) →
      (r.run fs b others).1 = (r.run fs b files).1 ∧
        (r.run fs b others).2.2.map (fun rep => (rep.modified, rep.unchanged)) =
          (r.run fs b files).2.2.map (fun rep => (rep.modified, rep.unchanged)) := by
  obtain ⟨b', os, hos, hrun⟩ := run_eq hparse h
  refine ⟨by rw [hrun], fun e p hfault => ?_, fun hnone => ?_, fun others hothers hsame => ?_⟩
  · rw [hrun, hfault]
    rfl
  · rw [hrun, hnone]
    exact ⟨report os, rfl, modified_of_outcomes hos, unchanged_of_outcomes hos, mem_failed_iff hos⟩
  · obtain ⟨b'', os', hos', hrun'⟩ := run_eq hparse hothers
    have hwritten : r.written fs others = r.written fs files := by
      rw [written, written, ← results_filter r fs others, hsame, results_filter]
    have hmodified : (report os').modified = (report os).modified := by
      have hkeep : ∀ p, (r.fate fs p).isModified = true → r.fate fs p ≠ .failed := fun p hp heq => by
        rw [heq] at hp; cases hp
      rw [modified_of_outcomes hos', modified_of_outcomes hos, ← filter_sound hkeep others, hsame, filter_sound hkeep]
    have hunchanged : (report os').unchanged = (report os).unchanged := by
      have hkeep : ∀ p, decide (r.fate fs p = .unchanged) = true → r.fate fs p ≠ .failed := fun p hp heq => by
        simp [heq] at hp
      rw [unchanged_of_outcomes hos', unchanged_of_outcomes hos, ← filter_sound hkeep others, hsame, filter_sound hkeep]
    rw [hrun, hrun', hwritten]
    refine ⟨rfl, ?_⟩
    cases (fs.writeAll (r.written fs files)).2 with
    | none => exact congrArg Except.ok (Prod.ext hmodified hunchanged)
    | some e => rfl

/-- Files of which one cannot be read, and one has a directory where its result should go. -/
def blockedFiles : Files :=
  ⟨[(["w"], .directory), (["w", "a.tsx"], .file (Bytes.ofString "class A { r() { <F/> } }")),
    (["w", "b.tsx"], .file (Bytes.ofString "class A { r() { <F/> } }")), (["w", "c.ts"], .file [0xff]),
    (["w", "out"], .directory), (["w", "out", "b.tsx"], .directory)]⟩

theorem run_isolates_blocked :
    (mixedPlan.run blockedFiles Bus.keeping
        [.fromRoot ["w", "c.ts"], .fromRoot ["w", "b.tsx"], .fromRoot ["w", "a.tsx"]]).2.2 =
      .error (.file .isADirectory (.fromRoot ["w", "out", "b.tsx"])) ∧
    (mixedPlan.run blockedFiles Bus.keeping [.fromRoot ["w", "c.ts"], .fromRoot ["w", "a.tsx"]]).1 =
      (mixedPlan.run blockedFiles Bus.keeping [.fromRoot ["w", "a.tsx"]]).1 ∧
    ∃ rep, (mixedPlan.run blockedFiles Bus.keeping [.fromRoot ["w", "a.tsx"]]).2.2 = .ok rep ∧
      rep.modified = [.fromRoot ["w", "a.tsx"]] := by
  obtain ⟨ha, hb, hc⟩ : mixedPlan.fate blockedFiles (.fromRoot ["w", "a.tsx"]) =
        .modified (Bytes.ofString "class A { r() { const F = this.rF; <F/> } }") ∧
      mixedPlan.fate blockedFiles (.fromRoot ["w", "b.tsx"]) =
        .modified (Bytes.ofString "class A { r() { const F = this.rF; <F/> } }") ∧
      mixedPlan.fate blockedFiles (.fromRoot ["w", "c.ts"]) = .failed := by decide +kernel
  have htaken : ∀ files, mixedPlan.Unrefused blockedFiles Bus.keeping files := fun files =>
    unrefused_of_receiver _ _ files (by decide)
  have hblocked : (blockedFiles.writeAll (mixedPlan.written blockedFiles
      [.fromRoot ["w", "c.ts"], .fromRoot ["w", "b.tsx"], .fromRoot ["w", "a.tsx"]])).2 =
        some (.isADirectory, .fromRoot ["w", "out", "b.tsx"]) := by
    rw [written, if_neg (by decide), results_cons, results_cons, results_cons, product_of_failed hc,
      product_of_modified hb, product_of_modified ha]
    decide +kernel
  have hfree : (blockedFiles.writeAll (mixedPlan.written blockedFiles [.fromRoot ["w", "a.tsx"]])).2 = none := by
    rw [written, if_neg (by decide), results_cons, product_of_modified ha]
    decide +kernel
  have hstops := (run_isolates mixedPlan Grammar.isSound_parse blockedFiles Bus.keeping
    [.fromRoot ["w", "c.ts"], .fromRoot ["w", "b.tsx"], .fromRoot ["w", "a.tsx"]] (htaken _)).2.1 _ _ hblocked
  obtain ⟨-, -, hends, hothers⟩ := run_isolates mixedPlan Grammar.isSound_parse blockedFiles Bus.keeping
    [.fromRoot ["w", "a.tsx"]] (htaken _)
  obtain ⟨rep, hrep, hmodified, -⟩ := hends hfree
  obtain ⟨hsame, -⟩ := hothers [.fromRoot ["w", "c.ts"], .fromRoot ["w", "a.tsx"]] (htaken _) (by simp [ha, hc])
  refine ⟨hstops, hsame, rep, hrep, ?_⟩
  rw [hmodified]
  simp [ha, Fate.isModified]

end RunPlan
end TagAlias
