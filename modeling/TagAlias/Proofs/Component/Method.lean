import Mathlib.Data.List.TakeWhile
import TagAlias.Component.Method
/-!
# What is known of a method

A method is located by its node, and it starts where its body does (`method_eq_ok_iff`).  A body that has anything in it has
a start (`exists_bodyStart_iff`), in front of its first statement that is no directive if there is one
(`bodyStart_of_first`), and always where one of its children begins or ends (`takesAt_of_bodyStart`).
-/
namespace TagAlias
namespace Component

variable {src : Bytes} {body : Node}

theorem bodyStart_of_first {first : Node} (h : (statements body).find? (fun s => !isDirective s) = some first) :
    bodyStart src body = .ok (first.start, "") := by
  have hhead : ((statements body).dropWhile isDirective).head? = some first := by
    rw [List.find?_eq_head?_dropWhile_not] at h
    simpa only [Bool.not_not] using h
  obtain ⟨rest, hrest⟩ := List.head?_eq_some_iff.1 hhead
  rw [bodyStart, hrest]

/-- A body takes declarations in front of its first statement that is no directive, else behind its last directive, else
behind the first of its children. -/
inductive TakesAt (body : Node) : Nat → Prop where
  | first {s : Node} (h : ((statements body).dropWhile isDirective).head? = some s) : TakesAt body s.start
  | directives {d : Node} (hall : (statements body).dropWhile isDirective = []) (h : (statements body).getLast? = some d) :
      TakesAt body d.stop
  | opening {brace : Node} (hnone : statements body = []) (h : body.children.head? = some brace) : TakesAt body brace.stop

theorem takesAt_of_bodyStart {o : Nat} {lead : String} (h : bodyStart src body = .ok (o, lead)) : TakesAt body o := by
  unfold bodyStart at h
  split at h
  · next first rest hfirst =>
    cases h
    exact .first (by rw [hfirst, List.head?_cons])
  · next hall =>
    split at h
    · next last hlast =>
      cases h
      exact .directives hall hlast
    · next hnone =>
      split at h
      · next brace rest hbrace =>
        cases h
        exact .opening (List.getLast?_eq_none_iff.1 hnone) (by rw [hbrace, List.head?_cons])
      · cases h

theorem statements_sublist (body : Node) : (statements body).Sublist body.children :=
  List.filter_sublist.trans List.filter_sublist

/-- Declarations go where a child of the body begins or ends. -/
theorem TakesAt.boundary {o : Nat} (h : TakesAt body o) : ∃ m ∈ body.children, o = m.start ∨ o = m.stop := by
  have hsub := (statements_sublist body).subset
  cases h with
  | first h => exact ⟨_, hsub ((List.dropWhile_sublist _).subset (List.mem_of_head? h)), .inl rfl⟩
  | directives _ h => exact ⟨_, hsub (List.mem_of_getLast? h), .inr rfl⟩
  | opening _ h => exact ⟨_, List.mem_of_head? h, .inr rfl⟩

/-- **Only where nothing is there does a body have no start.** -/
theorem exists_bodyStart_iff : (∃ start, bodyStart src body = .ok start) ↔ body.children ≠ [] := by
  constructor
  · rintro ⟨start, h⟩ hnil
    have hstatements : statements body = [] := by
      rw [statements, Node.namedChildren, hnil]; rfl
    rw [bodyStart, hstatements, hnil] at h
    cases h
  · intro hne
    obtain ⟨brace, rest, hchildren⟩ := List.exists_cons_of_ne_nil hne
    unfold bodyStart
    split
    · exact ⟨_, rfl⟩
    · split
      · exact ⟨_, rfl⟩
      · rw [hchildren]; exact ⟨_, rfl⟩

/-- **What is known of a method**, if it can be located and its body has a start. -/
theorem method_eq_ok_iff {name : String} {n : Node} {m : ComponentMethod} : method src name n = .ok m ↔
    ∃ at_, Position.ofOffset src n.start = .ok at_ ∧
      match n.child? "body" with
      | none => m = ⟨name, none, false, "", " ", at_.line, at_.column⟩
      | some body => ∃ o lead, bodyStart src body = .ok (o, lead) ∧
          m = ⟨name, some (o : Int), true, lead, separatorAt src o, at_.line, at_.column⟩ := by
  unfold method
  cases hat : Position.ofOffset src n.start with
  | error f => simp [Except.mapError, bind, Except.bind]
  | ok at_ =>
    cases hbody : n.child? "body" with
    | none => simp [Except.mapError, bind, Except.bind, pure, Except.pure, eq_comm]
    | some body =>
      cases hstart : bodyStart src body with
      | error e => simp [Except.mapError, bind, Except.bind, hstart]
      | ok start =>
        simp only [Except.mapError, bind, Except.bind, pure, Except.pure, hstart, Except.ok.injEq]
        constructor
        · rintro rfl
          exact ⟨at_, rfl, start.1, start.2, rfl, rfl⟩
        · rintro ⟨at', rfl, o, lead, rfl, rfl⟩
          rfl

/-- A method starts where its body does, and nowhere without a body. -/
theorem bodyStart_of_method {name : String} {n : Node} {m : ComponentMethod} (h : method src name n = .ok m) :
    match n.child? "body" with
    | some body => ∃ o lead, bodyStart src body = .ok (o, lead) ∧ m.bodyStart = some (o : Int)
    | none => m.bodyStart = none := by
  obtain ⟨at_, -, hm⟩ := method_eq_ok_iff.1 h
  cases hbody : n.child? "body" with
  | none => rw [hbody] at hm; rw [hm]
  | some body =>
    rw [hbody] at hm
    obtain ⟨o, lead, hstart, rfl⟩ := hm
    exact ⟨o, lead, hstart, rfl⟩

end Component
end TagAlias
