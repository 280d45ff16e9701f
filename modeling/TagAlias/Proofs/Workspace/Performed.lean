import Mathlib.Data.List.Forall2
import TagAlias.Proofs.Files.Frame
import TagAlias.Workspace.Run
/-!
# What carrying out steps leaves behind

Steps are carried out one after another.  If each can be carried out when its turn comes, all are (`exists_performAll`);
then the bus has heard the messages in their order and nothing else (`hears_of_performAll`), each path leads to a file
with what was written there, and all else in the files is as before but for directories on the way (`wrote_of_performAll`).
-/
namespace TagAlias

/-! ## What is heard -/

section

variable {α : Type} [Template.Object α]

/-- A text conveys a message: it has its level, and it is the message's text from some template. -/
def Conveys (m : Message α) (d : Delivery) : Prop := d.level = m.level ∧ ∃ template, m.textFrom template = .ok d.text

/-- A bus has heard messages, in this order and nothing else.  Who listens to texts got one for each. -/
structure Hears (b : Bus α) (ms : List (Message α)) (b' : Bus α) : Prop where
  receiver : b'.receiver = b.receiver
  messages : b'.messages = b.messages ++ if b.receiver = .messages then ms else []
  texts : ∃ ds, b'.deliveries = b.deliveries ++ ds ∧ List.Forall₂ Conveys (if b.receiver = .texts then ms else []) ds

theorem Hears.refl (b : Bus α) : Hears b [] b :=
  ⟨rfl, by simp, [], by simp, by split <;> exact .nil⟩

theorem Hears.trans {b b₁ b₂ : Bus α} {ms ms' : List (Message α)} (h : Hears b ms b₁) (h' : Hears b₁ ms' b₂) :
    Hears b (ms ++ ms') b₂ := by
  obtain ⟨ds, hds, hconveys⟩ := h.texts
  obtain ⟨ds', hds', hconveys'⟩ := h'.texts
  refine ⟨h'.receiver.trans h.receiver, ?_, ds ++ ds', ?_, ?_⟩
  · rw [h'.messages, h.messages, h.receiver]
    split <;> simp
  · rw [hds', hds, List.append_assoc]
  · rw [h.receiver] at hconveys'
    split
    · next htexts =>
      rw [if_pos htexts] at hconveys hconveys'
      exact List.rel_append hconveys hconveys'
    · next htexts =>
      rw [if_neg htexts] at hconveys hconveys'
      exact List.rel_append hconveys hconveys'

theorem hears_of_send {b b' : Bus α} {fs : Files} {m : Message α} (h : b.send fs m = (b', .ok ())) : Hears b [m] b' := by
  unfold Bus.send at h
  split at h
  · next hreceiver =>
    cases h
    exact ⟨rfl, by simp [hreceiver], [], by simp, by simp [hreceiver]⟩
  · next hreceiver =>
    cases h
    exact ⟨rfl, by simp [hreceiver], [], by simp, by simp [hreceiver]⟩
  · next hreceiver =>
    split at h
    · cases h
    · next c template _ =>
      split at h
      · cases h
      · next s hs =>
        cases h
        exact ⟨rfl, by simp [hreceiver], [⟨m.level, s⟩], rfl, by simpa [hreceiver] using ⟨rfl, template, hs⟩⟩

end

/-- A bus that keeps messages as they are. -/
def Bus.keeping : Bus Argument := .of (.of [] none) .messages

/-- A bus that delivers the packaged texts. -/
def Bus.telling : Bus Argument := .of (.of [.packaged] none) .texts

/-! ## What is written -/

/-- Files have been written: each path leads to its content.  Elsewhere all is as before, but for new directories on the
way of one of the paths. -/
structure Wrote (fs : Files) (ws : List (Path × Bytes)) (fs' : Files) : Prop where
  sameLinks : Files.SameLinks fs fs'
  written : ∀ w ∈ ws, ∃ names, fs.resolve w.1 = .ok (.fromRoot names) ∧ fs'.entry? names = some (.file w.2)
  elsewhere : ∀ names, (∀ w ∈ ws, fs.resolve w.1 ≠ .ok (.fromRoot names)) → fs'.entry? names = fs.entry? names ∨
    (fs.entry? names = none ∧ fs'.entry? names = some .directory ∧ ∃ w ∈ ws, Files.OnTheWay fs w.1 names)

theorem Wrote.refl (fs : Files) : Wrote fs [] fs :=
  ⟨.refl fs, fun _ hw => absurd hw List.not_mem_nil, fun _ _ => .inl rfl⟩

theorem Wrote.cons {fs fs₁ fs' : Files} {p : Path} {content : Bytes} {ws : List (Path × Bytes)} {names : List String}
    (h : Files.Places fs p content fs₁ names) (hws : Wrote fs₁ ws fs')
    (hapart : ∀ w ∈ ws, fs.resolve w.1 ≠ .ok (.fromRoot names)) : Wrote fs ((p, content) :: ws) fs' := by
  have hresolve : ∀ q, fs₁.resolve q = fs.resolve q := Files.resolve_congr h.sameLinks
  refine ⟨h.sameLinks.trans hws.sameLinks, List.forall_mem_cons.2 ⟨⟨names, h.resolve, ?_⟩, fun w hw => ?_⟩,
    fun other hother => ?_⟩
  · rcases hws.elsewhere names (fun w hw => by rw [hresolve]; exact hapart w hw) with hsame | ⟨hnone, -⟩
    · rw [hsame, h.file]
    · rw [h.file] at hnone; cases hnone
  · obtain ⟨at_, hat, hfile⟩ := hws.written w hw
    exact ⟨at_, (hresolve w.1).symm.trans hat, hfile⟩
  · obtain ⟨hhead, htail⟩ := List.forall_mem_cons.1 hother
    have hne : other ≠ names := fun heq => hhead (heq ▸ h.resolve)
    rcases hws.elsewhere other (fun w hw => by rw [hresolve]; exact htail w hw) with
      hsame | ⟨hnone, hdir, w, hw, q, hq, hplace⟩
    · rw [hsame]
      exact (h.elsewhere other hne).imp_right
        (fun ⟨hnone, hdir, hway⟩ => ⟨hnone, hdir, (p, content), List.mem_cons_self, hway⟩)
    · rcases h.elsewhere other hne with hsame | ⟨-, hthere, -⟩
      · exact .inr ⟨hsame ▸ hnone, hdir, w, List.mem_cons_of_mem _ hw, q, hq, (hresolve q).symm.trans hplace⟩
      · rw [hthere] at hnone; cases hnone

/-! ## Steps -/

namespace RunPlan

variable {α : Type}

def sent (steps : List (Action α)) : List (Message α) :=
  steps.filterMap (fun a => match a with
    | .send m => some m
    | .write _ _ => none)

def writes (steps : List (Action α)) : List (Path × Bytes) :=
  steps.filterMap (fun a => match a with
    | .send _ => none
    | .write p content => some (p, content))

@[simp] theorem sent_send (m : Message α) (steps : List (Action α)) : sent (.send m :: steps) = m :: sent steps := rfl

@[simp] theorem sent_write (p : Path) (content : Bytes) (steps : List (Action α)) :
    sent (.write p content :: steps) = sent steps := rfl

@[simp] theorem writes_send (m : Message α) (steps : List (Action α)) : writes (.send m :: steps) = writes steps := rfl

@[simp] theorem writes_write (p : Path) (content : Bytes) (steps : List (Action α)) :
    writes (.write p content :: steps) = (p, content) :: writes steps := rfl

theorem sent_append (steps steps' : List (Action α)) : sent (steps ++ steps') = sent steps ++ sent steps' :=
  List.filterMap_append

theorem writes_append (steps steps' : List (Action α)) : writes (steps ++ steps') = writes steps ++ writes steps' :=
  List.filterMap_append

variable [Tellable α]

/-- The turn of a step comes, with these files and this bus: all before it have been carried out. -/
def Comes (fs : Files) (b : Bus α) (steps : List (Action α)) (a : Action α) (fs' : Files) (b' : Bus α) : Prop :=
  ∃ before after, steps = before ++ a :: after ∧ performAll fs b before = (fs', b', .ok ())

theorem performAll_cons {fs fs₁ : Files} {b b₁ : Bus α} {a : Action α} (h : perform fs b a = (fs₁, b₁, .ok ()))
    (steps : List (Action α)) : performAll fs b (a :: steps) = performAll fs₁ b₁ steps := by
  rw [performAll, h]

theorem performAll_cons_ok {fs fs' : Files} {b b' : Bus α} {a : Action α} {steps : List (Action α)}
    (h : performAll fs b (a :: steps) = (fs', b', .ok ())) :
    ∃ fs₁ b₁, perform fs b a = (fs₁, b₁, .ok ()) ∧ performAll fs₁ b₁ steps = (fs', b', .ok ()) := by
  rw [performAll] at h
  split at h
  · next fs₁ b₁ hstep => exact ⟨fs₁, b₁, hstep, h⟩
  · cases h

/-- **If each step can be carried out when its turn comes, all are.** -/
theorem exists_performAll : ∀ (steps : List (Action α)) (fs : Files) (b : Bus α),
    (∀ a fs' b', Comes fs b steps a fs' b' → (perform fs' b' a).2.2 = .ok ()) →
    ∃ fs' b', performAll fs b steps = (fs', b', .ok ())
  | [], fs, b, _ => ⟨fs, b, rfl⟩
  | a :: steps, fs, b, h => by
    have hfirst : (perform fs b a).2.2 = .ok () := h a fs b ⟨[], steps, rfl, rfl⟩
    obtain ⟨fs₁, b₁, hstep⟩ : ∃ fs₁ b₁, perform fs b a = (fs₁, b₁, .ok ()) := ⟨_, _, by rw [← hfirst]⟩
    obtain ⟨fs', b', hrest⟩ := exists_performAll steps fs₁ b₁ (fun a' fs' b' ⟨before, after, hsteps, hbefore⟩ =>
      h a' fs' b' ⟨a :: before, after, by rw [hsteps]; rfl, by rw [performAll_cons hstep, hbefore]⟩)
    exact ⟨fs', b', by rw [performAll_cons hstep, hrest]⟩

/-- If all steps have been carried out, each was when its turn came. -/
theorem perform_of_comes : ∀ {steps : List (Action α)} {fs fs₁ fs' : Files} {b b₁ b' : Bus α} {a : Action α},
    performAll fs b steps = (fs', b', .ok ()) → Comes fs b steps a fs₁ b₁ → (perform fs₁ b₁ a).2.2 = .ok ()
  | [], _, _, _, _, _, _, _, _, ⟨before, after, hsteps, _⟩ => by cases before <;> cases hsteps
  | s :: steps, fs, fs₁, fs', b, b₁, b', a, h, ⟨before, after, hsteps, hbefore⟩ => by
    obtain ⟨fs₂, b₂, hstep, hrest⟩ := performAll_cons_ok h
    cases before with
    | nil =>
      cases hsteps
      cases hbefore
      rw [hstep]
    | cons s' before =>
      cases hsteps
      rw [performAll_cons hstep] at hbefore
      exact perform_of_comes hrest ⟨before, after, rfl, hbefore⟩

theorem perform_send_ok {fs fs' : Files} {b b' : Bus α} {m : Message α} (h : perform fs b (.send m) = (fs', b', .ok ())) :
    fs' = fs ∧ b.send fs m = (b', .ok ()) := by
  unfold perform at h
  dsimp only at h
  cases hsend : b.send fs m with
  | mk b₁ done =>
    rw [hsend] at h
    cases h
    exact ⟨rfl, rfl⟩

theorem perform_write_ok {fs fs' : Files} {b b' : Bus α} {p : Path} {content : Bytes}
    (h : perform fs b (.write p content) = (fs', b', .ok ())) : b' = b ∧ fs.writeInto p content = (fs', none) := by
  unfold perform at h
  dsimp only at h
  split at h
  · next fs₁ heq => cases h; exact ⟨rfl, heq⟩
  · cases h

theorem perform_write_ok_iff {fs : Files} {b : Bus α} {p : Path} {content : Bytes} :
    (perform fs b (.write p content)).2.2 = .ok () ↔ (fs.writeInto p content).2 = none := by
  unfold perform
  dsimp only
  split
  · next heq => simp [heq]
  · next heq => simp [heq]

/-- **The bus has heard what steps send.** -/
theorem hears_of_performAll : ∀ (steps : List (Action α)) {fs fs' : Files} {b b' : Bus α},
    performAll fs b steps = (fs', b', .ok ()) → Hears b (sent steps) b'
  | [], fs, fs', b, b', h => by cases h; exact .refl b
  | .send m :: steps, fs, fs', b, b', h => by
    obtain ⟨fs₁, b₁, hstep, hrest⟩ := performAll_cons_ok h
    exact (hears_of_send (perform_send_ok hstep).2).trans (hears_of_performAll steps hrest)
  | .write p content :: steps, fs, fs', b, b', h => by
    obtain ⟨fs₁, b₁, hstep, hrest⟩ := performAll_cons_ok h
    rw [(perform_write_ok hstep).1] at hrest
    exact hears_of_performAll steps hrest

/-- **Steps write what they say, and leave alone all else.** -/
theorem wrote_of_performAll : ∀ (steps : List (Action α)) {fs fs' : Files} {b b' : Bus α},
    performAll fs b steps = (fs', b', .ok ()) →
    (writes steps).Pairwise (fun w w' => ∀ d, fs.resolve w.1 = .ok d → fs.resolve w'.1 ≠ .ok d) →
    Wrote fs (writes steps) fs'
  | [], fs, fs', b, b', h, _ => by cases h; exact .refl fs
  | .send m :: steps, fs, fs', b, b', h, hapart => by
    obtain ⟨fs₁, b₁, hstep, hrest⟩ := performAll_cons_ok h
    rw [(perform_send_ok hstep).1] at hrest
    exact wrote_of_performAll steps hrest hapart
  | .write p content :: steps, fs, fs', b, b', h, hapart => by
    obtain ⟨fs₁, b₁, hstep, hrest⟩ := performAll_cons_ok h
    obtain ⟨names, hplaces⟩ := Files.writeInto_places (perform_write_ok hstep).2
    rw [writes_write, List.pairwise_cons] at hapart
    have hresolve : ∀ q, fs₁.resolve q = fs.resolve q := Files.resolve_congr hplaces.sameLinks
    refine .cons hplaces (wrote_of_performAll steps hrest ?_) (fun w hw => hapart.1 w hw _ hplaces.resolve)
    exact hapart.2.imp (fun h => by simpa only [hresolve] using h)

/-- Steps that write nothing leave the files as they are. -/
theorem files_of_performAll : ∀ (steps : List (Action α)) {fs fs' : Files} {b b' : Bus α},
    performAll fs b steps = (fs', b', .ok ()) → writes steps = [] → fs' = fs
  | [], fs, fs', b, b', h, _ => by cases h; rfl
  | .send m :: steps, fs, fs', b, b', h, hnone => by
    obtain ⟨fs₁, b₁, hstep, hrest⟩ := performAll_cons_ok h
    rw [(perform_send_ok hstep).1] at hrest
    exact files_of_performAll steps hrest hnone
  | .write p content :: steps, fs, fs', b, b', h, hnone => by cases hnone

end RunPlan
end TagAlias
