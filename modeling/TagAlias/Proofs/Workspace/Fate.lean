import TagAlias.Proofs.Data.Sequence
import TagAlias.Proofs.Grammar.Located
import TagAlias.Proofs.Workspace.Performed
/-!
# What becomes of the files of a run

What becomes of a file is settled by its bytes and the path by which it is told of, before anything is written.  A run
lists its files accordingly (`report_of_outcomes`), writes what has changed and, where there is a directory for results,
copies what has not, and tells of each file in turn (`run_reports`).
-/
namespace TagAlias

inductive Fate where
  | failed
  | unchanged
  /-- It is to hold other bytes. -/
  | modified (content : Bytes)
  deriving DecidableEq, Repr

namespace Fate

def isModified : Fate → Bool
  | modified _ => true
  | _ => false

/-- The addresses of the messages that tell it. -/
def messageIds (check : Bool) : Fate → List Str
  | failed => ["transform.file.read_error", "transform.file.error"]
  | unchanged => ["transform.file.unchanged"]
  | modified _ => [if check then "transform.file.would_change" else "transform.file.success"]

end Fate

/-- What becomes of a file with these bytes, if it can be read, that is told of by this path. -/
def Transformer.fate (t : Transformer) (parse : Parse) (path : Path) : Option Bytes → Fate
  | none => .failed
  | some content =>
    match Utf8.decode content with
    | .error _ => .failed
    | .ok cs =>
      match t.transform parse (String.ofList cs) path.display none with
      | .error _ => .failed
      | .ok r => if r.changed then .modified (Bytes.ofString r.code) else .unchanged

namespace RunPlan

variable (r : RunPlan) (fs : Files)

def fate (p : Path) : Fate := r.transformer.fate r.parse (r.relative p) (fs.read p).toOption

/-- What is written for a file: what it is to hold, or what it holds where results go elsewhere. -/
def product (p : Path) : Option Bytes :=
  match r.fate fs p with
  | .failed => none
  | .unchanged => if r.outDir.isSome then (fs.read p).toOption else none
  | .modified content => some content

def results (files : List Path) : List (Path × Bytes) :=
  files.filterMap (fun p => (r.product fs p).map (fun content => (r.destination p, content)))

section

variable {α : Type} [Tellable α]

/-- The messages about a file: remarks on roots of qualified names, and then one that tells what becomes of it. -/
def Tells (p : Path) (ms : List (Message α)) : Prop :=
  ∃ (remarks : List (Message α)) (last : Message α), ms = remarks ++ [last] ∧
    (∀ m ∈ remarks, m.id = Str.ofString "transform.member_root") ∧ last.id ∈ (r.fate fs p).messageIds r.check ∧
    last.params.lookup (Str.ofString "path") = some (Tellable.path (r.relative p))

/-- The steps of a run. -/
def steps (files : List Path) : Except Refusal (List (Action α)) :=
  (files.mapM (fun p => (r.outcome fs p).map (fun o => (p, o)))).map
    (fun os => os.flatMap (fun (p, o) => r.actions p o) ++ [.send (r.closing (report os))])

/-- In a run over files the turn of a step comes, with these files and this bus. -/
def ComesTo (b : Bus α) (files : List Path) (a : Action α) (fs' : Files) (b' : Bus α) : Prop :=
  ∃ all, r.steps fs files = .ok all ∧ Comes fs b all a fs' b'

end

variable {r fs}

theorem steps_of_mapM (α : Type) [Tellable α] {files : List Path} {os : List (Path × Outcome)}
    (h : files.mapM (fun p => (r.outcome fs p).map (fun o => (p, o))) = .ok os) :
    r.steps fs files = .ok (os.flatMap (fun (p, o) => r.actions p o) ++ [Action.send (r.closing (report os) : Message α)]) := by
  rw [steps, h]
  rfl

theorem product_of_failed {p : Path} (h : r.fate fs p = .failed) : r.product fs p = none := by
  rw [product, h]

theorem product_of_unchanged {p : Path} (h : r.fate fs p = .unchanged) :
    r.product fs p = if r.outDir.isSome then (fs.read p).toOption else none := by
  rw [product, h]

theorem product_of_modified {p : Path} {content : Bytes} (h : r.fate fs p = .modified content) :
    r.product fs p = some content := by
  rw [product, h]

/-! ## Outcomes -/

/-- What an outcome says of the fate of a file. -/
inductive Settles (r : RunPlan) (fs : Files) (p : Path) : Outcome → Prop where
  | unread (message : String) (h : r.fate fs p = .failed) : Settles r fs p (.unread message)
  | failed (failure : Failure) (h : r.fate fs p = .failed) : Settles r fs p (.failed failure)
  | modified (t : Transformed) (hchanged : t.changed = true) (h : r.fate fs p = .modified (Bytes.ofString t.code)) :
      Settles r fs p (.done t)
  | unchanged (t : Transformed) (hchanged : t.changed = false) (h : r.fate fs p = .unchanged)
      (hread : fs.read p = .ok (Bytes.ofString t.code)) : Settles r fs p (.done t)

theorem given_of_transform {t : Transformer} {parse : Parse} {text file : String} {d : Transformed}
    (h : t.transform parse text file none = .ok d) : d.given = text := by
  obtain ⟨_, _, c, -, -, -, hfinish⟩ := Alias.transform_eq_ok_iff.1 h
  obtain ⟨_, _, -, -, rfl⟩ := Alias.finish_eq_ok_iff.1 hfinish
  rfl

/-- **An outcome settles the fate of its file.** -/
theorem settles_of_outcome {p : Path} {o : Outcome} (h : r.outcome fs p = .ok o) : Settles r fs p o := by
  unfold outcome at h
  cases hread : fs.read p with
  | error e =>
    rw [hread] at h
    cases h
    exact .unread _ (by rw [fate, hread]; rfl)
  | ok content =>
    have hfate : r.fate fs p = r.transformer.fate r.parse (r.relative p) (some content) := by rw [fate, hread]; rfl
    simp only [hread] at h
    cases hdecode : Utf8.decode content with
    | error f =>
      simp only [hdecode] at h
      cases h
      refine .unread _ ?_
      rw [hfate, Transformer.fate]
      simp only [hdecode]
    | ok cs =>
      simp only [hdecode] at h
      cases htransform : r.transformer.transform r.parse (String.ofList cs) (r.relative p).display none with
      | error f =>
        have hfailed : r.fate fs p = .failed := by
          rw [hfate, Transformer.fate]
          simp only [hdecode, htransform]
        rw [htransform] at h
        cases f with
        | refused c => cases h
        | _ => cases h; exact .failed _ hfailed
      | ok t =>
        rw [htransform] at h
        cases h
        have hsettled : r.fate fs p = if t.changed then .modified (Bytes.ofString t.code) else .unchanged := by
          rw [hfate, Transformer.fate]
          simp only [hdecode, htransform]
        cases hchanged : t.changed with
        | true => exact .modified t hchanged (by rw [hsettled, hchanged]; rfl)
        | false =>
          have hcode : t.code = String.ofList cs := by
            rw [← given_of_transform htransform]
            simpa [Transformed.changed] using hchanged
          refine .unchanged t hchanged (by rw [hsettled, hchanged]; rfl) ?_
          rw [hread, hcode, Bytes.ofString, String.toList_ofList, Utf8.encode_of_decode hdecode]

/-- **Every file has an outcome**, for a text is never refused. -/
theorem exists_outcome (hparse : r.parse.IsSound) (fs : Files) (p : Path) : ∃ o, r.outcome fs p = .ok o := by
  unfold outcome
  split
  · exact ⟨_, rfl⟩
  · split
    · exact ⟨_, rfl⟩
    · split
      · exact ⟨_, rfl⟩
      · next hrefused => cases Alias.reported_of_transform hparse hrefused
      · exact ⟨_, rfl⟩

/-- The outcomes of files, each settling the fate of its file. -/
abbrev Outcomes (r : RunPlan) (fs : Files) (files : List Path) (os : List (Path × Outcome)) : Prop :=
  List.Forall₂ (fun p x => x.1 = p ∧ Settles r fs p x.2) files os

theorem outcomes_of_mapM : ∀ {files : List Path} {os : List (Path × Outcome)},
    files.mapM (fun p => (r.outcome fs p).map (fun o => (p, o))) = .ok os → Outcomes r fs files os
  | [], os, h => by cases h; exact .nil
  | p :: files, os, h => by
    obtain ⟨x, rest, hx, hrest, rfl⟩ := mapM_cons_ok h
    cases ho : r.outcome fs p with
    | error e => rw [ho] at hx; cases hx
    | ok o =>
      rw [ho] at hx
      cases hx
      exact .cons ⟨rfl, settles_of_outcome ho⟩ (outcomes_of_mapM hrest)

theorem exists_outcomes (hparse : r.parse.IsSound) (fs : Files) (files : List Path) :
    ∃ os, files.mapM (fun p => (r.outcome fs p).map (fun o => (p, o))) = .ok os ∧ Outcomes r fs files os := by
  obtain ⟨os, hos⟩ : ∃ os, files.mapM (fun p => (r.outcome fs p).map (fun o => (p, o))) = .ok os :=
    exists_mapM (fun p _ => by
      obtain ⟨o, ho⟩ := exists_outcome hparse fs p
      exact ⟨(p, o), by rw [ho]; rfl⟩)
  exact ⟨os, hos, outcomes_of_mapM hos⟩

/-! ## Reports -/

/-- What is known of failures grows at its end while files are told apart. -/
theorem setText_of_new {known : List (Path × String)} {p : Path} (h : p ∉ known.map (·.1)) (s : String) :
    report.setText known p s = known ++ [(p, s)] := by
  unfold report.setText
  rw [if_neg]
  rintro hany
  obtain ⟨e, he, heq⟩ := List.any_eq_true.1 hany
  exact h (List.mem_map.2 ⟨e, he, eq_of_beq heq⟩)

theorem foldl_setText {step : List (Path × String) → Path × Outcome → List (Path × String)}
    (hunread : ∀ known p e, step known (p, .unread e) = report.setText known p e)
    (hfailed : ∀ known p f, step known (p, .failed f) = report.setText known p f.display)
    (hdone : ∀ known p t, step known (p, .done t) = known) {files : List Path} {os : List (Path × Outcome)}
    (hos : Outcomes r fs files os) : ∀ known : List (Path × String), (known.map (·.1) ++ files).Nodup →
      (os.foldl step known).map (·.1) = known.map (·.1) ++ files.filter (fun p => r.fate fs p = .failed) := by
  induction hos with
  | nil => intro known _; simp
  | @cons p x files os hx _ ih =>
    obtain ⟨q, o⟩ := x
    obtain ⟨rfl, hsettles⟩ := hx
    intro known hnodup
    have hnew : q ∉ known.map (·.1) := fun hq => (List.nodup_append.1 hnodup).2.2 q hq q List.mem_cons_self rfl
    have hstep : (∃ s, step known (q, o) = known ++ [(q, s)] ∧ r.fate fs q = .failed) ∨
        (step known (q, o) = known ∧ r.fate fs q ≠ .failed) := by
      cases hsettles with
      | unread e h => exact .inl ⟨e, (hunread known q e).trans (setText_of_new hnew e), h⟩
      | failed f h => exact .inl ⟨f.display, (hfailed known q f).trans (setText_of_new hnew _), h⟩
      | modified t _ h => exact .inr ⟨hdone known q t, by rw [h]; simp⟩
      | unchanged t _ h _ => exact .inr ⟨hdone known q t, by rw [h]; simp⟩
    rw [List.foldl_cons, List.filter_cons]
    rcases hstep with ⟨s, hs, h⟩ | ⟨hs, h⟩
    · rw [hs, ih _ (by simpa using hnodup), if_pos (by simpa using h)]
      simp
    · have hrest : (known.map (·.1) ++ files).Nodup := hnodup.sublist ((List.sublist_cons_self q files).append_left _)
      rw [hs, ih _ hrest, if_neg (by simpa using h)]

theorem filterMap_of_outcomes {pick : Path × Outcome → Option Path} {keep : Path → Bool} {files : List Path}
    {os : List (Path × Outcome)} (hos : Outcomes r fs files os)
    (hpick : ∀ p o, Settles r fs p o → pick (p, o) = if keep p then some p else none) :
    os.filterMap pick = files.filter keep := by
  induction hos with
  | nil => rfl
  | @cons p x files os hx _ ih =>
    obtain ⟨q, o⟩ := x
    obtain ⟨rfl, hsettles⟩ := hx
    rw [List.filterMap_cons, List.filter_cons, ih, hpick q o hsettles]
    cases keep q <;> rfl

theorem modified_of_outcomes {files : List Path} {os : List (Path × Outcome)} (hos : Outcomes r fs files os) :
    (report os).modified = files.filter (fun p => (r.fate fs p).isModified) := by
  refine filterMap_of_outcomes hos (fun p o hsettles => ?_)
  cases hsettles with
  | unread _ h => rw [h]; rfl
  | failed _ h => rw [h]; rfl
  | modified t hchanged h => simp [h, hchanged, Fate.isModified]
  | unchanged t hchanged h _ => simp [h, hchanged, Fate.isModified]

theorem unchanged_of_outcomes {files : List Path} {os : List (Path × Outcome)} (hos : Outcomes r fs files os) :
    (report os).unchanged = files.filter (fun p => r.fate fs p = .unchanged) := by
  refine filterMap_of_outcomes hos (fun p o hsettles => ?_)
  cases hsettles with
  | unread _ h => simp [h]
  | failed _ h => simp [h]
  | modified t hchanged h => simp [h, hchanged]
  | unchanged t hchanged h _ => simp [h, hchanged]

theorem failed_of_outcomes {files : List Path} {os : List (Path × Outcome)} (hos : Outcomes r fs files os)
    (hnodup : files.Nodup) : (report os).failed.map (·.1) = files.filter (fun p => r.fate fs p = .failed) :=
  foldl_setText (fun _ _ _ => rfl) (fun _ _ _ => rfl) (fun _ _ _ => rfl) hos [] (by simpa using hnodup)

/-- **A report lists each file once, by its fate, in the order of the files.** -/
theorem report_of_outcomes {files : List Path} {os : List (Path × Outcome)} (hos : Outcomes r fs files os)
    (hnodup : files.Nodup) : (report os).modified = files.filter (fun p => (r.fate fs p).isModified) ∧
      (report os).unchanged = files.filter (fun p => r.fate fs p = .unchanged) ∧
      (report os).failed.map (·.1) = files.filter (fun p => r.fate fs p = .failed) :=
  ⟨modified_of_outcomes hos, unchanged_of_outcomes hos, failed_of_outcomes hos hnodup⟩

/-! ## Messages and writes -/

variable {α : Type}

theorem sent_map_send (ms : List (Message α)) : sent (ms.map Action.send) = ms := by
  induction ms with
  | nil => rfl
  | cons m ms ih => rw [List.map_cons, sent_send, ih]

theorem writes_map_send (ms : List (Message α)) : writes (ms.map Action.send) = [] := by
  induction ms with
  | nil => rfl
  | cons m ms ih => rw [List.map_cons, writes_send, ih]

variable [Tellable α]

theorem closing_id (r : RunPlan) (rep : Report) : (r.closing rep : Message α).id ∈
      [Str.ofString "transform.run.failed", "transform.run.check_failed", "transform.run.complete",
        "transform.run.clean"] ∧
      ((r.closing rep : Message α).id = Str.ofString "transform.run.failed" ↔ rep.failed ≠ []) := by
  unfold closing
  dsimp only
  split
  · next h => exact ⟨by simp [Message.of], by simpa [Message.of] using h⟩
  · next h =>
    have hnil : rep.failed = [] := by simpa using h
    split
    · split <;> exact ⟨by simp [Message.of], by simp [Message.of, hnil]⟩
    · exact ⟨by simp [Message.of], by simp [Message.of, hnil]⟩

theorem id_of_mem_messages {t : Transformed} {stem : String} : ∀ m ∈ (t.messages stem : List (Message α)),
    m.id = Str.ofString "transform.member_root" := by
  intro m hm
  obtain ⟨d, -, hd⟩ := List.mem_filterMap.1 hm
  split at hd
  · cases hd; rfl
  · cases hd

/-- **The messages about a file tell of it and of what becomes of it.** -/
theorem tells_of_settles {p : Path} {o : Outcome} (h : Settles r fs p o) :
    r.Tells fs p (sent (r.actions p o : List (Action α))) := by
  cases h with
  | unread e h => exact ⟨[], _, rfl, by simp, by rw [h]; simp [Fate.messageIds, Message.of], by simp [Message.of]⟩
  | failed f h => exact ⟨[], _, rfl, by simp, by rw [h]; simp [Fate.messageIds, failureMessage], by simp [failureMessage]⟩
  | modified t hchanged h =>
    unfold actions
    simp only [hchanged, Bool.not_true, Bool.false_eq_true, if_false, sent_append, sent_map_send]
    split
    · next hcheck =>
      exact ⟨_, _, rfl, id_of_mem_messages, by rw [h, hcheck]; simp [Fate.messageIds, Message.of], by simp [Message.of]⟩
    · next hcheck =>
      exact ⟨_, _, rfl, id_of_mem_messages, by rw [h]; simp [Fate.messageIds, Message.of, hcheck], by simp [Message.of]⟩
  | unchanged t hchanged h _ =>
    unfold actions
    simp only [hchanged, Bool.not_false, if_true, sent_append, sent_map_send, sent_send]
    have hrest : sent (if (r.outDir.isSome && !r.check) = true then
        [Action.write (r.destination p) (Bytes.ofString t.code)] else [] : List (Action α)) = [] := by
      split <;> rfl
    rw [hrest]
    exact ⟨_, _, rfl, id_of_mem_messages, by rw [h]; simp [Fate.messageIds, Message.of], by simp [Message.of]⟩

/-- **What is written for a file goes to its destination**, and nothing is if the run only looks. -/
theorem writes_of_settles {p : Path} {o : Outcome} (h : Settles r fs p o) : writes (r.actions p o : List (Action α)) =
    if r.check then [] else ((r.product fs p).map (fun content => (r.destination p, content))).toList := by
  cases h with
  | unread e h => rw [product_of_failed h]; simp [actions]; rfl
  | failed f h => rw [product_of_failed h]; simp [actions]; rfl
  | modified t hchanged h =>
    rw [product_of_modified h]
    unfold actions
    simp only [hchanged, Bool.not_true, Bool.false_eq_true, if_false, writes_append, writes_map_send, List.nil_append]
    split <;> rfl
  | unchanged t hchanged h hread =>
    rw [product_of_unchanged h]
    unfold actions
    simp only [hchanged, Bool.not_false, if_true, writes_append, writes_map_send, writes_send, List.nil_append, hread]
    cases r.check <;> cases r.outDir <;> rfl

/-! ## Runs -/

theorem told_of_outcomes {files : List Path} {os : List (Path × Outcome)} (hos : Outcomes r fs files os) :
    ∃ told : List (List (Message α)), List.Forall₂ (r.Tells fs) files told ∧
      sent (os.flatMap (fun (p, o) => r.actions p o)) = told.flatten := by
  induction hos with
  | nil => exact ⟨[], .nil, rfl⟩
  | @cons p x files os hx _ ih =>
    obtain ⟨q, o⟩ := x
    obtain ⟨rfl, hsettles⟩ := hx
    obtain ⟨told, htold, hsent⟩ := ih
    exact ⟨_ :: told, .cons (tells_of_settles hsettles) htold, by rw [List.flatMap_cons, sent_append, hsent]; rfl⟩

theorem results_cons (p : Path) (files : List Path) : r.results fs (p :: files) =
    ((r.product fs p).map (fun content => (r.destination p, content))).toList ++ r.results fs files := by
  rw [results, List.filterMap_cons]
  cases r.product fs p <;> rfl

theorem writes_of_outcomes {files : List Path} {os : List (Path × Outcome)} (hos : Outcomes r fs files os) :
    writes (os.flatMap (fun (p, o) => r.actions p o) : List (Action α)) = if r.check then [] else r.results fs files := by
  induction hos with
  | nil => split <;> rfl
  | @cons p x files os hx _ ih =>
    obtain ⟨q, o⟩ := x
    obtain ⟨rfl, hsettles⟩ := hx
    rw [List.flatMap_cons, writes_append, ih, writes_of_settles hsettles, results_cons]
    cases r.check <;> rfl

/-- The last message of a run writes nothing. -/
theorem writes_of_all {files : List Path} {os : List (Path × Outcome)} (hos : Outcomes r fs files os) (m : Message α) :
    writes (os.flatMap (fun (p, o) => r.actions p o) ++ [.send m]) = if r.check then [] else r.results fs files := by
  rw [writes_append, writes_of_outcomes hos]
  exact List.append_nil _

theorem results_apart {files : List Path}
    (h : files.Pairwise (fun p q => ∀ d, fs.resolve (r.destination p) = .ok d → fs.resolve (r.destination q) ≠ .ok d)) :
    (r.results fs files).Pairwise (fun w w' => ∀ d, fs.resolve w.1 = .ok d → fs.resolve w'.1 ≠ .ok d) := by
  refine List.pairwise_filterMap.2 (h.imp (fun {p q} hpq w hw w' hw' => ?_))
  obtain ⟨_, -, rfl⟩ := Option.map_eq_some_iff.1 hw
  obtain ⟨_, -, rfl⟩ := Option.map_eq_some_iff.1 hw'
  exact hpq

/-- In a run that has come to its end each step was carried out when its turn came. -/
theorem perform_of_run {fs' fs₁ : Files} {b b' b₁ : Bus α} {files : List Path} {rep : Report} {a : Action α}
    (h : r.run fs b files = (fs', b', .ok rep)) (hcomes : r.ComesTo fs b files a fs₁ b₁) :
    (perform fs₁ b₁ a).2.2 = .ok () := by
  obtain ⟨all, hsteps, hturn⟩ := hcomes
  unfold steps at hsteps
  unfold run at h
  cases hos : files.mapM (fun p => (r.outcome fs p).map (fun o => (p, o))) with
  | error e => rw [hos] at h; cases h
  | ok os =>
    rw [hos] at h hsteps
    dsimp only at h
    cases hsteps
    split at h
    · next fs₂ b₂ hperformed => exact perform_of_comes hperformed hturn
    · cases h

/-- **What a run reports and does.**  If no write fails and no message is refused when its turn comes, the run comes to its
end.  It lists each file once, in order, by a fate that its bytes and the path by which it is told of settle.  A run that
only looks leaves the files as they were; any other writes what has changed and, where there is a directory for results,
what has not, and leaves alone all else.  Of each file it tells in turn, and at the end of the whole. -/
theorem run_reports (r : RunPlan) (hparse : r.parse.IsSound) (fs : Files) (b : Bus α) (files : List Path)
    (hfiles : files.Nodup)
    (hapart : files.Pairwise
      (fun p q => ∀ d, fs.resolve (r.destination p) = .ok d → fs.resolve (r.destination q) ≠ .ok d))
    (hwrites : ∀ p content fs' b', r.ComesTo fs b files (.write p content) fs' b' → (fs'.writeInto p content).2 = none)
    (hsends : ∀ m fs' b', r.ComesTo fs b files (.send m) fs' b' → (b'.send fs' m).2 = .ok ()) :
    ∃ fs' b' rep, r.run fs b files = (fs', b', .ok rep) ∧
      rep.modified = files.filter (fun p => (r.fate fs p).isModified) ∧
      rep.unchanged = files.filter (fun p => r.fate fs p = .unchanged) ∧
      rep.failed.map (·.1) = files.filter (fun p => r.fate fs p = .failed) ∧
      (r.check = true → fs' = fs) ∧ (r.check = false → Wrote fs (r.results fs files) fs') ∧
      ∃ told last, List.Forall₂ (r.Tells fs) files told ∧ Hears b (told.flatten ++ [last]) b' ∧
        last.id ∈ [Str.ofString "transform.run.failed", "transform.run.check_failed", "transform.run.complete",
          "transform.run.clean"] ∧
        (last.id = Str.ofString "transform.run.failed" ↔ rep.failed ≠ []) := by
  obtain ⟨os, hos, houtcomes⟩ := exists_outcomes hparse fs files
  have hsteps := steps_of_mapM α hos
  obtain ⟨fs', b', hperformed⟩ := exists_performAll _ fs b (fun a fs' b' hcomes => by
    cases a with
    | send m => exact hsends m fs' b' ⟨_, hsteps, hcomes⟩
    | write p content => exact perform_write_ok_iff.2 (hwrites p content fs' b' ⟨_, hsteps, hcomes⟩))
  have hrun : r.run fs b files = (fs', b', .ok (report os)) := by
    unfold run
    rw [hos]
    dsimp only
    rw [hperformed]
  obtain ⟨told, htold, hsent⟩ : ∃ told : List (List (Message α)), _ := told_of_outcomes houtcomes
  obtain ⟨hmodified, hunchanged, hfailed⟩ := report_of_outcomes houtcomes hfiles
  obtain ⟨hid, hclosing⟩ : (r.closing (report os) : Message α).id ∈ _ ∧ _ := closing_id r (report os)
  have hhears := hears_of_performAll _ hperformed
  have hall := writes_of_all houtcomes (r.closing (report os) : Message α)
  rw [sent_append, hsent] at hhears
  refine ⟨fs', b', report os, hrun, hmodified, hunchanged, hfailed, fun hcheck => ?_, fun hcheck => ?_,
    told, r.closing (report os), htold, hhears, hid, hclosing⟩
  · rw [hcheck, if_pos rfl] at hall
    exact files_of_performAll _ hperformed hall
  · rw [hcheck, if_neg Bool.false_ne_true] at hall
    rw [← hall]
    exact wrote_of_performAll _ hperformed (by rw [hall]; exact results_apart hapart)

/-- A plan, files and their names for a run in which one file changes, one does not and one cannot be read. -/
def mixedPlan : RunPlan := ⟨Grammar.parse, .fromRoot ["w"], ⟨⟨"r", .aliased⟩, []⟩, some (.fromRoot ["w", "out"]), false⟩

@[inherit_doc mixedPlan]
def mixedFiles : Files :=
  ⟨[(["w"], .directory), (["w", "a.tsx"], .file (Bytes.ofString "class A { r() { <F/> } }")), (["w", "b.ts"], .file []),
    (["w", "c.ts"], .file [0xff])]⟩

@[inherit_doc mixedPlan]
def mixedNames : List Path := [.fromRoot ["w", "a.tsx"], .fromRoot ["w", "b.ts"], .fromRoot ["w", "c.ts"]]

theorem run_reports_mixed : mixedNames.Nodup ∧ ∃ fs' b' rep,
    mixedPlan.run mixedFiles Bus.keeping mixedNames = (fs', b', .ok rep) ∧
      rep.modified = [.fromRoot ["w", "a.tsx"]] ∧ rep.unchanged = [.fromRoot ["w", "b.ts"]] ∧
      rep.failed.map (·.1) = [.fromRoot ["w", "c.ts"]] ∧
      Wrote mixedFiles [(.fromRoot ["w", "out", "a.tsx"], Bytes.ofString "class A { r() { const F = this.rF; <F/> } }"),
        (.fromRoot ["w", "out", "b.ts"], [])] fs' := by
  have hnodup : mixedNames.Nodup := by decide +kernel
  have hends : (mixedPlan.run mixedFiles Bus.keeping mixedNames).2.2.isOk = true := by decide +kernel
  obtain ⟨fs₁, b₁, rep₁, hrun⟩ : ∃ fs' b' rep,
      mixedPlan.run mixedFiles Bus.keeping mixedNames = (fs', b', .ok rep) := by
    revert hends
    generalize mixedPlan.run mixedFiles Bus.keeping mixedNames = run
    obtain ⟨fs', b', (e | rep)⟩ := run
    · intro h; cases h
    · exact fun _ => ⟨fs', b', rep, rfl⟩
  have hplaces : mixedNames.map (fun p => mixedFiles.resolve (mixedPlan.destination p)) =
      [.ok (.fromRoot ["w", "out", "a.tsx"]), .ok (.fromRoot ["w", "out", "b.ts"]), .ok (.fromRoot ["w", "out", "c.ts"])] := by
    decide +kernel
  have hapart : mixedNames.Pairwise (fun p q => ∀ d, mixedFiles.resolve (mixedPlan.destination p) = .ok d →
      mixedFiles.resolve (mixedPlan.destination q) ≠ .ok d) := by
    have hplaced : (mixedNames.map (fun p => mixedFiles.resolve (mixedPlan.destination p))).Pairwise
        (fun x y => ∀ d, x = .ok d → y ≠ .ok d) := by
      rw [hplaces]
      simp [Path.fromRoot]
    exact List.pairwise_map.1 hplaced
  obtain ⟨ha, hb, hc⟩ : mixedPlan.fate mixedFiles (.fromRoot ["w", "a.tsx"]) =
        .modified (Bytes.ofString "class A { r() { const F = this.rF; <F/> } }") ∧
      mixedPlan.fate mixedFiles (.fromRoot ["w", "b.ts"]) = .unchanged ∧
      mixedPlan.fate mixedFiles (.fromRoot ["w", "c.ts"]) = .failed := by decide +kernel
  obtain ⟨fs', b', rep, hrun, hmodified, hunchanged, hfailed, -, hwrote, -⟩ :=
    run_reports mixedPlan Grammar.isSound_parse mixedFiles Bus.keeping mixedNames hnodup hapart
      (fun p content fs' b' hcomes => perform_write_ok_iff.1 (perform_of_run hrun hcomes))
      (fun m fs' b' hcomes => perform_of_run hrun hcomes)
  refine ⟨hnodup, fs', b', rep, hrun, ?_, ?_, ?_, ?_⟩
  · rw [hmodified]; simp [mixedNames, ha, hb, hc, Fate.isModified]
  · rw [hunchanged]; simp [mixedNames, ha, hb, hc]
  · rw [hfailed]; simp [mixedNames, ha, hb, hc]
  · have hread : (mixedFiles.read (.fromRoot ["w", "b.ts"])).toOption = some [] := by decide +kernel
    have hresults : mixedPlan.results mixedFiles mixedNames =
        [(.fromRoot ["w", "out", "a.tsx"], Bytes.ofString "class A { r() { const F = this.rF; <F/> } }"),
          (.fromRoot ["w", "out", "b.ts"], [])] := by
      rw [mixedNames, results_cons, results_cons, results_cons, product_of_modified ha, product_of_unchanged hb,
        product_of_failed hc, hread]
      rfl
    rw [← hresults]
    exact hwrote rfl

end RunPlan
end TagAlias
