import Mathlib.Data.List.Induction
import TagAlias.Proofs.Scope.Bindings
/-!
# Scopes opened in any order

A forest grows by steps: a scope is opened, inside one that is there already or inside none, or a name is declared on a
scope.  The steps so far settle every answer.  A name means on a scope what the first declaration of it says on the nearest
scope at or above that has one (`lookup_eq_some_iff`).  So a further declaration is heard where the way up to it knew nothing
of its name, and nowhere else (`lookup_concat_of_heard`, `lookup_concat_of_not_heard`).  Variables go to the nearest function
or program at or above, else to the topmost scope (`exists_variableScope`).
-/
namespace TagAlias
namespace Scope

theorem takesVariables_iff (s : Scope) : s.takesVariables = true ↔ s.kind = "function" ∨ s.kind = "program" := by
  simp [takesVariables]

namespace Forest

/-! ## Nearest members of a row -/

section

variable {α β : Type} {l : List α} {p : α → Option β}

theorem findSome?_eq_some_iff_nearest {b : β} :
    l.findSome? p = some b ↔ ∃ h : Nat, l[h]?.bind p = some b ∧ ∀ g < h, l[g]?.bind p = none := by
  induction l with
  | nil => simp
  | cons a l ih =>
    rw [List.findSome?_cons]
    cases ha : p a with
    | some c =>
      constructor
      · rintro ⟨⟩
        exact ⟨0, ha, fun g hg => absurd hg (Nat.not_lt_zero g)⟩
      · rintro ⟨h, hb, hbelow⟩
        cases h with
        | zero => rw [← hb]; exact ha.symm
        | succ h =>
          have hfirst : p a = none := hbelow 0 (Nat.succ_pos h)
          rw [ha] at hfirst
          cases hfirst
    | none =>
      rw [ih]
      constructor
      · rintro ⟨h, hb, hbelow⟩
        refine ⟨h + 1, hb, fun g hg => ?_⟩
        cases g with
        | zero => exact ha
        | succ g => exact hbelow g (Nat.lt_of_succ_lt_succ hg)
      · rintro ⟨h, hb, hbelow⟩
        cases h with
        | zero =>
          have hfirst : p a = some b := hb
          rw [ha] at hfirst
          cases hfirst
        | succ h => exact ⟨h, hb, fun g hg => hbelow (g + 1) (Nat.succ_lt_succ hg)⟩

theorem findSome?_eq_none_iff_getElem? : l.findSome? p = none ↔ ∀ h : Nat, l[h]?.bind p = none := by
  rw [List.findSome?_eq_none_iff]
  constructor
  · intro hall h
    cases ha : l[h]? with
    | none => rfl
    | some a => exact hall a (List.mem_of_getElem? ha)
  · intro hall a ha
    obtain ⟨h, hh⟩ := List.mem_iff_getElem?.1 ha
    simpa [hh] using hall h

variable [DecidableEq α] {a : α} {b : β}

/-- What is said of a further member is found where nothing nearer says anything. -/
theorem findSome?_or_of_nearest (h : ∃ h : Nat, l[h]? = some a ∧ ∀ g ≤ h, l[g]?.bind p = none) :
    l.findSome? (fun c => (p c).or (if a = c then some b else none)) = some b := by
  obtain ⟨h, ha, hbelow⟩ := h
  induction l generalizing h with
  | nil => cases ha
  | cons c l ih =>
    have hc : p c = none := hbelow 0 (Nat.zero_le h)
    rw [List.findSome?_cons, hc, Option.none_or]
    by_cases hac : a = c
    · rw [if_pos hac]
    · rw [if_neg hac]
      cases h with
      | zero => exact absurd (Option.some.inj ha).symm hac
      | succ h => exact ih h ha (fun g hg => hbelow (g + 1) (Nat.succ_le_succ hg))

theorem findSome?_or_of_not_nearest (h : ¬ ∃ h : Nat, l[h]? = some a ∧ ∀ g ≤ h, l[g]?.bind p = none) :
    l.findSome? (fun c => (p c).or (if a = c then some b else none)) = l.findSome? p := by
  induction l with
  | nil => rfl
  | cons c l ih =>
    rw [List.findSome?_cons, List.findSome?_cons]
    cases hc : p c with
    | some d => rfl
    | none =>
      by_cases hac : a = c
      · refine absurd ⟨0, congrArg some hac.symm, fun g hg => ?_⟩ h
        obtain rfl : g = 0 := Nat.le_zero.1 hg
        exact hc
      · rw [Option.none_or, if_neg hac]
        refine ih (fun ⟨k, ha, hbelow⟩ => h ⟨k + 1, ha, fun g hg => ?_⟩)
        cases g with
        | zero => exact hc
        | succ g => exact hbelow g (Nat.le_of_succ_le_succ hg)

end

/-! ## Steps -/

/-- A step by which a forest grows. -/
inductive Step where
  | opening (kind : String) (parent : Option Nat)
  | declaring (scope : Nat) (name kind : String)
  deriving DecidableEq, Repr

def grow (f : Forest) : Step → Forest
  | .opening kind parent => f.openScope kind parent
  | .declaring i name kind => f.declare i name kind

/-- The forest after steps, from the empty one on. -/
def after (steps : List Step) : Forest := steps.foldl grow empty

/-- The scope that a step opens: its kind and the scope around it. -/
def Step.scope? : Step → Option (String × Option Nat)
  | .opening kind parent => some (kind, parent)
  | .declaring _ _ _ => none

def opened (steps : List Step) : List (String × Option Nat) := steps.filterMap Step.scope?

/-- Whether a step can be taken with `n` scopes there: those that it speaks of are there, and a name is not empty. -/
def Step.Fits (n : Nat) : Step → Prop
  | .opening _ parent => ∀ p ∈ parent, p < n
  | .declaring i name _ => i < n ∧ name ≠ ""

instance (n : Nat) : DecidablePred (Step.Fits n)
  | .opening _ parent => inferInstanceAs (Decidable (∀ p ∈ parent, p < n))
  | .declaring i name _ => inferInstanceAs (Decidable (i < n ∧ name ≠ ""))

/-- Each step can be taken after those before it. -/
def Sound (steps : List Step) : Prop := ∀ k, (h : k < steps.length) → steps[k].Fits (opened (steps.take k)).length

instance (steps : List Step) : Decidable (Sound steps) :=
  inferInstanceAs (Decidable (∀ k, (h : k < steps.length) → steps[k].Fits (opened (steps.take k)).length))

/-! ## What the steps say -/

def parent? (steps : List Step) (i : Nat) : Option Nat := (opened steps)[i]?.bind (·.2)

/-- The scope that lies a number of levels above a scope. -/
def above (steps : List Step) : Nat → Nat → Option Nat
  | 0, i => some i
  | h + 1, i => (parent? steps i).bind (above steps h)

/-- The kind of declaration that a step makes of a name on a scope. -/
def Step.kindOf? (i : Nat) (x : String) : Step → Option String
  | .opening _ _ => none
  | .declaring j name kind => if j = i ∧ name = x then some kind else none

/-- The kind of the first declaration of a name on a scope. -/
def declared? (steps : List Step) (i : Nat) (x : String) : Option String := steps.findSome? (Step.kindOf? i x)

/-- The same on the scope that lies a number of levels above. -/
def declaredAbove? (steps : List Step) (h i : Nat) (x : String) : Option String :=
  (above steps h i).bind (declared? steps · x)

def TakesVariables (steps : List Step) (i : Nat) : Prop :=
  ∃ o, (opened steps)[i]? = some o ∧ (o.1 = "function" ∨ o.1 = "program")

theorem after_concat (steps : List Step) (e : Step) : after (steps ++ [e]) = (after steps).grow e := by
  simp [after]

theorem opened_concat (steps : List Step) (e : Step) : opened (steps ++ [e]) = opened steps ++ e.scope?.toList := by
  cases h : e.scope? <;> simp [opened, h]

@[simp] theorem opened_concat_opening (steps : List Step) (kind : String) (parent : Option Nat) :
    opened (steps ++ [.opening kind parent]) = opened steps ++ [(kind, parent)] := opened_concat _ _

@[simp] theorem opened_concat_declaring (steps : List Step) (i : Nat) (name kind : String) :
    opened (steps ++ [.declaring i name kind]) = opened steps := by
  rw [opened_concat, Step.scope?, Option.toList_none, List.append_nil]

theorem declared?_concat (steps : List Step) (e : Step) (i : Nat) (x : String) :
    declared? (steps ++ [e]) i x = (declared? steps i x).or (e.kindOf? i x) := by
  rw [declared?, List.findSome?_append]
  cases h : e.kindOf? i x <;> simp [declared?, h]

theorem sound_concat_iff {steps : List Step} {e : Step} :
    Sound (steps ++ [e]) ↔ Sound steps ∧ e.Fits (opened steps).length := by
  constructor
  · intro h
    constructor
    · intro k hk
      have hfits := h k (by rw [List.length_append]; omega)
      rwa [List.getElem_append_left hk, List.take_append_of_le_length (Nat.le_of_lt hk)] at hfits
    · have hfits := h steps.length (by simp)
      rwa [List.getElem_concat_length rfl, List.take_left] at hfits
  · rintro ⟨hsteps, he⟩ k hk
    rcases Nat.lt_or_ge k steps.length with hlt | hge
    · rw [List.getElem_append_left hlt, List.take_append_of_le_length (Nat.le_of_lt hlt)]
      exact hsteps k hlt
    · obtain rfl : k = steps.length := by
        rw [List.length_append, List.length_singleton] at hk
        omega
      rwa [List.getElem_concat_length rfl, List.take_left]

/-! ## Ways up -/

theorem parent?_concat_declaring (steps : List Step) (i : Nat) (name kind : String) :
    parent? (steps ++ [.declaring i name kind]) = parent? steps := by
  funext j
  rw [parent?, parent?, opened_concat_declaring]

theorem above_concat_declaring (steps : List Step) (i : Nat) (name kind : String) (h j : Nat) :
    above (steps ++ [.declaring i name kind]) h j = above steps h j := by
  induction h generalizing j with
  | zero => rfl
  | succ h ih =>
    rw [above, above, parent?_concat_declaring]
    exact congrArg _ (funext ih)

theorem parent?_concat_of_lt {steps : List Step} {i : Nat} (hi : i < (opened steps).length) (e : Step) :
    parent? (steps ++ [e]) i = parent? steps i := by
  rw [parent?, parent?, opened_concat, List.getElem?_append_left hi]

/-- A scope lies inside one that was opened before it. -/
theorem lt_of_parent? {steps : List Step} (hsound : Sound steps) {i p : Nat} (h : parent? steps i = some p) : p < i := by
  induction steps using List.reverseRecOn with
  | nil => simp [parent?, opened] at h
  | append_singleton steps e ih =>
    obtain ⟨hsteps, he⟩ := sound_concat_iff.1 hsound
    cases e with
    | declaring j name kind =>
      rw [parent?_concat_declaring] at h
      exact ih hsteps h
    | opening kind parent =>
      by_cases hlt : i < (opened steps).length
      · rw [parent?_concat_of_lt hlt] at h
        exact ih hsteps h
      · rw [parent?, opened_concat_opening] at h
        obtain ⟨o, ho, hp⟩ := Option.bind_eq_some_iff.1 h
        rw [List.getElem?_append_right (by omega)] at ho
        have hlast := List.mem_singleton.1 (List.mem_of_getElem? ho)
        subst hlast
        have := he p hp
        omega

theorem le_of_above {steps : List Step} (hsound : Sound steps) {h i j : Nat} (hj : above steps h i = some j) : j ≤ i := by
  induction h generalizing i with
  | zero => exact Nat.le_of_eq (Option.some.inj hj).symm
  | succ h ih =>
    obtain ⟨p, hp, habove⟩ := Option.bind_eq_some_iff.1 hj
    exact Nat.le_trans (ih habove) (Nat.le_of_lt (lt_of_parent? hsound hp))

theorem above_concat_of_lt {steps : List Step} (hsound : Sound steps) (e : Step) (h : Nat) {i : Nat}
    (hi : i < (opened steps).length) : above (steps ++ [e]) h i = above steps h i := by
  induction h generalizing i with
  | zero => rfl
  | succ h ih =>
    rw [above, above, parent?_concat_of_lt hi]
    cases hp : parent? steps i with
    | none => rfl
    | some p => exact ih (Nat.lt_trans (lt_of_parent? hsound hp) hi)

/-- One level further up is right around. -/
theorem above_succ (steps : List Step) (h i : Nat) : above steps (h + 1) i = (above steps h i).bind (parent? steps) := by
  induction h generalizing i with
  | zero => simp [above]
  | succ h ih =>
    rw [above, above, Option.bind_assoc]
    exact congrArg _ (funext ih)

/-! ## What a step does to a forest -/

section

variable (f : Forest) (kind : String) (parent : Option Nat)

theorem size_openScope : (f.openScope kind parent).size = f.size + 1 := by simp [openScope, size]

theorem get?_openScope (i : Nat) : (f.openScope kind parent).get? i = if i = f.size then some (.empty kind) else f.get? i := by
  rw [get?, openScope, List.getElem?_append]
  by_cases hlt : i < f.scopes.length
  · rw [if_pos hlt, if_neg (by unfold size; omega), get?]
  · rw [if_neg hlt]
    by_cases heq : i = f.size
    · rw [if_pos heq, heq, size, Nat.sub_self]
      rfl
    · have hge : 1 ≤ i - f.scopes.length := by unfold size at heq; omega
      rw [if_neg heq, get?, List.getElem?_eq_none (by simpa using hge), List.getElem?_eq_none (by omega)]

theorem lineage_openScope_of_lt {i : Nat} (hi : i < f.size) : (f.openScope kind parent).lineage i = f.lineage i := by
  rw [lineage, openScope, List.getElem?_append_left hi, lineage]

theorem lineage_openScope_size : (f.openScope kind parent).lineage f.size = f.size :: (parent.map f.lineage).getD [] := by
  have hlast : (f.openScope kind parent).scopes[f.size]? =
      some (Scope.empty kind, f.size :: (parent.map f.lineage).getD []) := List.getElem?_concat_length
  rw [lineage, hlast]
  rfl

variable (i : Nat) (name : String)

theorem size_declare : (f.declare i name kind).size = f.size := by simp [declare, size]

theorem lineage_declare (j : Nat) : (f.declare i name kind).lineage j = f.lineage j := by
  rw [lineage, declare, List.getElem?_modify, lineage]
  by_cases h : i = j <;> cases f.scopes[j]? <;> simp [h]

theorem get?_declare (j : Nat) :
    (f.declare i name kind).get? j = if j = i then (f.get? j).map (·.declare name kind) else f.get? j := by
  rw [get?, declare, List.getElem?_modify, get?]
  by_cases h : j = i
  · subst h
    cases f.scopes[j]? <;> simp
  · rw [if_neg h]
    cases f.scopes[j]? <;> simp [Ne.symm h]

end

/-! ## The forest is what the steps say -/

structure Agrees (steps : List Step) (f : Forest) : Prop where
  size : f.size = (opened steps).length
  kind : ∀ i, (f.get? i).map Scope.kind = (opened steps)[i]?.map (·.1)
  find? : ∀ i x, (f.get? i).bind (·.find? x) = declared? steps i x
  lineage : ∀ i < f.size, ∀ h, (f.lineage i)[h]? = above steps h i

theorem agrees_nil : Agrees [] empty where
  size := rfl
  kind := fun _ => rfl
  find? := fun _ _ => rfl
  lineage := fun _ hi => absurd hi (Nat.not_lt_zero _)

variable {steps : List Step} {f : Forest}

theorem Agrees.exists_get? (h : Agrees steps f) {i : Nat} (hi : i < (opened steps).length) : ∃ s, f.get? i = some s := by
  rw [← h.size] at hi
  exact ⟨_, by rw [get?, List.getElem?_eq_getElem hi]; rfl⟩

theorem Agrees.openScope (h : Agrees steps f) (hsound : Sound steps) (kind : String) {parent : Option Nat}
    (hparent : ∀ p ∈ parent, p < (opened steps).length) :
    Agrees (steps ++ [.opening kind parent]) (f.openScope kind parent) where
  size := by rw [size_openScope, h.size, opened_concat_opening, List.length_append, List.length_singleton]
  kind := by
    intro i
    rw [get?_openScope, opened_concat_opening, List.getElem?_append, ← h.size]
    by_cases hi : i = f.size
    · subst hi
      simp [Scope.empty]
    · rw [if_neg hi, h.kind]
      by_cases hlt : i < f.size
      · rw [if_pos hlt]
      · rw [if_neg hlt, List.getElem?_eq_none (by rw [← h.size]; omega),
          List.getElem?_eq_none (by rw [List.length_singleton]; omega)]
  find? := by
    intro i x
    rw [get?_openScope, declared?_concat, Step.kindOf?, Option.or_none, ← h.find?]
    by_cases hi : i = f.size
    · -- Nothing is declared on a scope that was not there.
      have hnone : f.get? i = none := by
        rw [get?, List.getElem?_eq_none (Nat.le_of_eq hi.symm)]
        rfl
      rw [if_pos hi, hnone]
      rfl
    · rw [if_neg hi]
  lineage := by
    intro i hi g
    rw [size_openScope] at hi
    by_cases hlt : i < f.size
    · rw [lineage_openScope_of_lt _ _ _ hlt, h.lineage i hlt, above_concat_of_lt hsound _ _ (h.size ▸ hlt)]
    · obtain rfl : i = f.size := by omega
      rw [lineage_openScope_size]
      cases g with
      | zero => rfl
      | succ g =>
        have hhere : parent? (steps ++ [.opening kind parent]) f.size = parent := by
          rw [parent?, opened_concat_opening, h.size, List.getElem?_concat_length]
          rfl
        rw [List.getElem?_cons_succ, above, hhere]
        cases parent with
        | none => rfl
        | some p =>
          have hp := hparent p rfl
          exact (h.lineage p (h.size ▸ hp) g).trans (above_concat_of_lt hsound _ _ hp).symm

theorem Agrees.declare (h : Agrees steps f) (i : Nat) {name : String} (hname : name ≠ "") (kind : String)
    (hi : i < (opened steps).length) : Agrees (steps ++ [.declaring i name kind]) (f.declare i name kind) where
  size := by rw [size_declare, h.size, opened_concat_declaring]
  kind := by
    intro j
    rw [get?_declare, opened_concat_declaring, ← h.kind]
    split
    · cases f.get? j <;> simp
    · rfl
  find? := by
    intro j x
    rw [get?_declare, declared?_concat, Step.kindOf?, ← h.find?]
    by_cases hj : j = i
    · subst hj
      obtain ⟨s, hs⟩ := h.exists_get? hi
      rw [if_pos rfl, hs, Option.map_some, Option.bind_some, Option.bind_some, find?_declare s name kind hname]
      simp [eq_comm]
    · rw [if_neg hj, if_neg (fun h => hj h.1.symm), Option.or_none]
  lineage := by
    intro j hj g
    rw [size_declare] at hj
    rw [lineage_declare, above_concat_declaring]
    exact h.lineage j hj g

/-- **A forest is what its steps say.** -/
theorem agrees_after (hsound : Sound steps) : Agrees steps (after steps) := by
  induction steps using List.reverseRecOn with
  | nil => exact agrees_nil
  | append_singleton steps e ih =>
    obtain ⟨hsteps, he⟩ := sound_concat_iff.1 hsound
    rw [after_concat]
    cases e with
    | opening kind parent => exact (ih hsteps).openScope hsteps kind he
    | declaring i name kind => exact (ih hsteps).declare i he.2 kind he.1

/-! ## What a name means -/

theorem Agrees.lookup (h : Agrees steps f) (i : Nat) (x : String) :
    f.lookup i x = (f.lineage i).findSome? (declared? steps · x) := by
  rw [Forest.lookup, Scope.lookup, chain]
  induction f.lineage i with
  | nil => rfl
  | cons j l ih =>
    rw [List.findSome?_cons, ← h.find?, ← ih, List.filterMap_cons]
    cases hj : f.get? j <;> rfl

theorem lookup_after (hsound : Sound steps) (i : Nat) (x : String) :
    (after steps).lookup i x = ((after steps).lineage i).findSome? (declared? steps · x) :=
  (agrees_after hsound).lookup i x

theorem lineage_after (hsound : Sound steps) {i : Nat} (hi : i < (opened steps).length) (h : Nat) :
    ((after steps).lineage i)[h]? = above steps h i :=
  (agrees_after hsound).lineage i ((agrees_after hsound).size ▸ hi) h

/-- **A name means what the first declaration of it says on the nearest scope that has one.** -/
theorem lookup_eq_some_iff (hsound : Sound steps) {i : Nat} (hi : i < (opened steps).length) (x kind : String) :
    (after steps).lookup i x = some kind ↔
      ∃ h, declaredAbove? steps h i x = some kind ∧ ∀ g < h, declaredAbove? steps g i x = none := by
  rw [lookup_after hsound, findSome?_eq_some_iff_nearest]
  simp only [lineage_after hsound hi, declaredAbove?]

theorem lookup_eq_none_iff (hsound : Sound steps) {i : Nat} (hi : i < (opened steps).length) (x : String) :
    (after steps).lookup i x = none ↔ ∀ h, declaredAbove? steps h i x = none := by
  rw [lookup_after hsound, findSome?_eq_none_iff_getElem?]
  simp only [lineage_after hsound hi, declaredAbove?]

/-! ## A further declaration -/

/-- A declaration of the name on scope `j` is heard on scope `i`: `j` lies at or above `i`, and no scope from `i` up to `j`,
that one included, has the name. -/
def Hears (steps : List Step) (i j : Nat) (x : String) : Prop :=
  ∃ h, above steps h i = some j ∧ ∀ g ≤ h, declaredAbove? steps g i x = none

section

variable {i j : Nat} {name kind : String}

theorem lookup_concat (hsound : Sound (steps ++ [.declaring j name kind])) (i : Nat) :
    (after (steps ++ [.declaring j name kind])).lookup i name =
      ((after steps).lineage i).findSome? (fun k => (declared? steps k name).or (if j = k then some kind else none)) := by
  rw [lookup_after hsound, after_concat, grow, lineage_declare]
  congr 1
  funext k
  rw [declared?_concat, Step.kindOf?]
  simp

variable (hsound : Sound (steps ++ [.declaring j name kind])) (hi : i < (opened steps).length)

include hsound hi

theorem lookup_concat_of_heard (hears : Hears steps i j name) :
    (after (steps ++ [.declaring j name kind])).lookup i name = some kind := by
  have hsteps := (sound_concat_iff.1 hsound).1
  rw [lookup_concat hsound]
  refine findSome?_or_of_nearest ?_
  obtain ⟨h, hj, hnone⟩ := hears
  refine ⟨h, by rwa [lineage_after hsteps hi], fun g hg => ?_⟩
  rw [lineage_after hsteps hi]
  exact hnone g hg

theorem lookup_concat_of_not_heard {x : String} (hnot : ¬ (Hears steps i j name ∧ x = name)) :
    (after (steps ++ [.declaring j name kind])).lookup i x = (after steps).lookup i x := by
  have hsteps := (sound_concat_iff.1 hsound).1
  by_cases hx : x = name
  · subst hx
    rw [lookup_concat hsound, lookup_after hsteps]
    refine findSome?_or_of_not_nearest (fun ⟨h, hj, hnone⟩ => hnot ⟨⟨h, ?_, fun g hg => ?_⟩, rfl⟩)
    · rwa [← lineage_after hsteps hi]
    · rw [declaredAbove?, ← lineage_after hsteps hi]
      exact hnone g hg
  · rw [lookup_after hsound, lookup_after hsteps, after_concat, grow, lineage_declare]
    congr 1
    funext k
    rw [declared?_concat, Step.kindOf?, if_neg (fun h => hx h.2.symm), Option.or_none]

end

/-- A declaration takes no binding away and touches no other scope. -/
theorem get?_concat_declaring (steps : List Step) (j : Nat) (name kind : String) {k : Nat} (hk : k ≠ j) :
    (after (steps ++ [.declaring j name kind])).get? k = (after steps).get? k := by
  rw [after_concat, grow, get?_declare, if_neg hk]

theorem find?_concat_declaring (steps : List Step) {j : Nat} {name : String} (hname : name ≠ "") (kind : String)
    {x old : String} (h : ((after steps).get? j).bind (·.find? x) = some old) :
    ((after (steps ++ [.declaring j name kind])).get? j).bind (·.find? x) = some old := by
  obtain ⟨s, hs, hold⟩ := Option.bind_eq_some_iff.1 h
  rw [after_concat, grow, get?_declare, if_pos rfl, hs, Option.map_some, Option.bind_some, find?_declare s name kind hname,
    hold, Option.some_or]

/-! ## Where variables go -/

theorem Agrees.takesVariables (h : Agrees steps f) (i : Nat) :
    (f.get? i).any Scope.takesVariables = true ↔ TakesVariables steps i := by
  have hkind := h.kind i
  unfold TakesVariables
  cases hs : f.get? i with
  | none =>
    rw [hs, Option.map_none, eq_comm, Option.map_eq_none_iff] at hkind
    simp [hkind]
  | some s =>
    rw [hs, Option.map_some, eq_comm, Option.map_eq_some_iff] at hkind
    obtain ⟨o, ho, hsame⟩ := hkind
    simp [ho, takesVariables_iff, hsame]

theorem go_cons_cons (f : Forest) (j k : Nat) (l : List Nat) : variableScope.go f (j :: k :: l) =
    if (f.get? j).any Scope.takesVariables then some j else variableScope.go f (k :: l) := rfl

/-- The first scope of a row that takes variables, else the last. -/
theorem exists_go (f : Forest) : ∀ {l : List Nat}, l ≠ [] → ∃ j, variableScope.go f l = some j ∧
    ((∃ h : Nat, l[h]? = some j ∧ (f.get? j).any Scope.takesVariables = true ∧
        ∀ g < h, ∀ k : Nat, l[g]? = some k → ¬ (f.get? k).any Scope.takesVariables = true) ∨
      (∃ h : Nat, l[h]? = some j ∧ l[h + 1]? = none ∧
        ∀ g k : Nat, l[g]? = some k → ¬ (f.get? k).any Scope.takesVariables = true))
  | [], h => absurd rfl h
  | [j], _ => by
    refine ⟨j, rfl, ?_⟩
    by_cases hj : (f.get? j).any Scope.takesVariables = true
    · exact .inl ⟨0, rfl, hj, fun g hg => absurd hg (Nat.not_lt_zero g)⟩
    · refine .inr ⟨0, rfl, rfl, fun g k hk => ?_⟩
      rwa [List.mem_singleton.1 (List.mem_of_getElem? hk)]
  | j :: k :: l, _ => by
    by_cases hj : (f.get? j).any Scope.takesVariables = true
    · exact ⟨j, by rw [go_cons_cons, if_pos hj], .inl ⟨0, rfl, hj, fun g hg => absurd hg (Nat.not_lt_zero g)⟩⟩
    · have hgo : variableScope.go f (j :: k :: l) = variableScope.go f (k :: l) := by rw [go_cons_cons, if_neg hj]
      obtain ⟨t, ht, hnearest | hlast⟩ := exists_go f (List.cons_ne_nil k l)
      · obtain ⟨h, hmem, htakes, hbelow⟩ := hnearest
        refine ⟨t, hgo.trans ht, .inl ⟨h + 1, hmem, htakes, fun g hg u hu => ?_⟩⟩
        cases g with
        | zero => rwa [← Option.some.inj hu]
        | succ g => exact hbelow g (Nat.lt_of_succ_lt_succ hg) u hu
      · obtain ⟨h, hmem, hend, hnone⟩ := hlast
        refine ⟨t, hgo.trans ht, .inr ⟨h + 1, hmem, hend, fun g u hu => ?_⟩⟩
        cases g with
        | zero => rwa [← Option.some.inj hu]
        | succ g => exact hnone g u hu

theorem variableScope_filterMap (f : Forest) : ∀ {l : List Nat}, (∀ j ∈ l, ∃ s, f.get? j = some s) →
    Scope.variableScope (l.filterMap f.get?) = (variableScope.go f l).bind f.get?
  | [], _ => rfl
  | [j], h => by
    obtain ⟨s, hs⟩ := h j List.mem_cons_self
    rw [List.filterMap_cons_some hs]
    exact hs.symm
  | j :: k :: l, h => by
    obtain ⟨hj, hrest⟩ := List.forall_mem_cons.1 h
    obtain ⟨s, hs⟩ := hj
    obtain ⟨t, ht⟩ := hrest k List.mem_cons_self
    have hbelow := variableScope_filterMap f hrest
    rw [List.filterMap_cons_some ht] at hbelow
    rw [List.filterMap_cons_some hs, List.filterMap_cons_some ht, Scope.variableScope, hbelow, go_cons_cons, hs,
      Option.any_some]
    · split
      · exact hs.symm
      · rfl
    · exact List.cons_ne_nil _ _

/-- The chain of a scope has the same scope for variables. -/
theorem variableScope_chain (hsound : Sound steps) {i : Nat} (hi : i < (opened steps).length) :
    Scope.variableScope ((after steps).chain i) = ((after steps).variableScope i).bind (after steps).get? := by
  refine variableScope_filterMap _ (fun j hj => ?_)
  obtain ⟨h, hh⟩ := List.mem_iff_getElem?.1 hj
  rw [lineage_after hsound hi] at hh
  exact (agrees_after hsound).exists_get? (Nat.lt_of_le_of_lt (le_of_above hsound hh) hi)

/-- **Variables go to the nearest function or program, else to the topmost scope.** -/
theorem exists_variableScope (hsound : Sound steps) {i : Nat} (hi : i < (opened steps).length) :
    ∃ j, (after steps).variableScope i = some j ∧
      ((∃ h, above steps h i = some j ∧ TakesVariables steps j ∧
          ∀ g < h, ∀ k, above steps g i = some k → ¬ TakesVariables steps k) ∨
        (∃ h, above steps h i = some j) ∧ parent? steps j = none ∧
          ∀ g k, above steps g i = some k → ¬ TakesVariables steps k) := by
  have hne : (after steps).lineage i ≠ [] := by
    intro hnil
    have hself := lineage_after hsound hi 0
    rw [hnil] at hself
    cases hself
  obtain ⟨j, hj, hcases⟩ := exists_go (after steps) hne
  simp only [lineage_after hsound hi, (agrees_after hsound).takesVariables] at hcases
  refine ⟨j, hj, hcases.imp_right (fun ⟨h, hup, hend, hnone⟩ => ⟨⟨h, hup⟩, ?_, hnone⟩)⟩
  rwa [above_succ, hup, Option.bind_some] at hend

/-- **What scopes answer.**  Let scopes be opened and names be declared on them in any order.  A name means on a scope what
the first declaration of it says on the nearest scope at or above that has one, and nothing if none has.  A further declaration
changes what its own name means on the scopes that hear of it, where it is what the name then means; every other answer stays,
and so does every binding of its scope and all of every other scope.  The scope for variables, by number or in the chain, is the
nearest function or program at or above, and without one the topmost scope. -/
theorem answers_nearest (hsound : Sound steps) {i : Nat} (hi : i < (opened steps).length) :
    (∀ x kind, (after steps).lookup i x = some kind ↔
      ∃ h, declaredAbove? steps h i x = some kind ∧ ∀ g < h, declaredAbove? steps g i x = none) ∧
    (∀ x, (after steps).lookup i x = none ↔ ∀ h, declaredAbove? steps h i x = none) ∧
    (∀ j name kind, (Step.declaring j name kind).Fits (opened steps).length →
      (Hears steps i j name → (after (steps ++ [.declaring j name kind])).lookup i name = some kind) ∧
      (∀ x, ¬ (Hears steps i j name ∧ x = name) →
        (after (steps ++ [.declaring j name kind])).lookup i x = (after steps).lookup i x) ∧
      (∀ x old, ((after steps).get? j).bind (·.find? x) = some old →
        ((after (steps ++ [.declaring j name kind])).get? j).bind (·.find? x) = some old) ∧
      ∀ k, k ≠ j → (after (steps ++ [.declaring j name kind])).get? k = (after steps).get? k) ∧
    Scope.variableScope ((after steps).chain i) = ((after steps).variableScope i).bind (after steps).get? ∧
    ∃ j, (after steps).variableScope i = some j ∧
      ((∃ h, above steps h i = some j ∧ TakesVariables steps j ∧
          ∀ g < h, ∀ k, above steps g i = some k → ¬ TakesVariables steps k) ∨
        (∃ h, above steps h i = some j) ∧ parent? steps j = none ∧
          ∀ g k, above steps g i = some k → ¬ TakesVariables steps k) := by
  refine ⟨lookup_eq_some_iff hsound hi, lookup_eq_none_iff hsound hi, ?_, variableScope_chain hsound hi,
    exists_variableScope hsound hi⟩
  intro j name kind hfits
  have hboth : Sound (steps ++ [.declaring j name kind]) := sound_concat_iff.2 ⟨hsound, hfits⟩
  exact ⟨lookup_concat_of_heard hboth hi, fun _ => lookup_concat_of_not_heard hboth hi,
    fun _ _ => find?_concat_declaring steps hfits.2 kind, fun _ => get?_concat_declaring steps j name kind⟩

/-- A name of the program is declared again, twice, on a block around a function with a block in it.  One more block stands
apart. -/
def shadowed : List Step :=
  [.opening "program" none, .opening "block" (some 0), .declaring 0 "Card" "module", .opening "function" (some 1),
    .opening "block" none, .declaring 1 "Card" "const", .opening "block" (some 2), .declaring 1 "Card" "let"]

/-- The inner block sees the first of the two, until the function declares the name. -/
theorem answers_nearest_shadowed : Sound shadowed ∧ 4 < (opened shadowed).length ∧
    (after shadowed).lookup 4 "Card" = some "const" ∧ Hears shadowed 4 2 "Card" ∧
    (after (shadowed ++ [.declaring 2 "Card" "param"])).lookup 4 "Card" = some "param" ∧
    (after (shadowed ++ [.declaring 2 "Card" "param"])).lookup 4 "Ui" = (after shadowed).lookup 4 "Ui" ∧
    (after shadowed).variableScope 4 = some 2 := by
  have hsound : Sound shadowed := by decide
  have hi : 4 < (opened shadowed).length := by decide
  obtain ⟨hknown, -, hfurther, -⟩ := answers_nearest hsound hi
  obtain ⟨hheard, hunheard, -, -⟩ := hfurther 2 "Card" "param" (by decide)
  have hears : Hears shadowed 4 2 "Card" := ⟨1, by decide, by decide⟩
  exact ⟨hsound, hi, (hknown "Card" "const").2 ⟨2, by decide, by decide⟩, hears, hheard hears,
    hunheard "Ui" (fun h => absurd h.2 (by decide)), by decide⟩

end Forest
end Scope
end TagAlias
