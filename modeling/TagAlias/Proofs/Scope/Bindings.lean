import TagAlias.Scope.Analysis
/-!
# What a scope knows after declarations

The first declaration of a name counts and later ones change nothing (`find?_declareAll`), so a scope is what the list of
its declarations says.  A chain answers with its innermost scope that knows the name (`lookup_append`).
-/
namespace TagAlias
namespace Scope

@[simp] theorem find?_empty (kind x : String) : (empty kind).find? x = none := rfl

/-- **Declaring a name answers for it where nothing did before, and for no other name.** -/
theorem find?_declare (s : Scope) (name kind : String) (hname : name ≠ "") (x : String) :
    (s.declare name kind).find? x = (s.find? x).or (if x = name then some kind else none) := by
  unfold declare
  have hne : name.isEmpty = false := by simpa [String.isEmpty_iff] using hname
  rw [hne, Bool.false_or]
  cases hfound : s.find? name with
  | some old =>
    by_cases hx : x = name
    · subst hx; simp [hfound]
    · simp [hx]
  | none =>
    show List.lookup x (s.bindings ++ [(name, kind)]) = _
    rw [List.lookup_append]
    congr 1
    by_cases hx : x = name
    · subst hx; simp
    · rw [List.lookup_cons, beq_false_of_ne hx, if_neg hx]; rfl

theorem declare_nil (s : Scope) (kind : String) : s.declare "" kind = s := rfl

/-- **A scope answers with what it knew, else with the first declaration of the name.** -/
theorem find?_declareAll : ∀ (ds : List (String × String)) (s : Scope) (x : String), x ≠ "" →
    (s.declareAll ds).find? x = (s.find? x).or (ds.lookup x)
  | [], s, x, _ => by simp [declareAll]
  | (name, kind) :: ds, s, x, hx => by
    show ((s.declare name kind).declareAll ds).find? x = _
    rw [find?_declareAll ds _ x hx, List.lookup_cons]
    by_cases hname : name = ""
    · subst hname
      rw [declare_nil, beq_false_of_ne hx]
    · rw [find?_declare s name kind hname, Option.or_assoc]
      by_cases hxn : x = name
      · subst hxn; simp
      · rw [if_neg hxn, Option.none_or, beq_false_of_ne hxn]

@[simp] theorem kind_declare (s : Scope) (name kind : String) : (s.declare name kind).kind = s.kind := by
  unfold declare; split <;> rfl

@[simp] theorem kind_declareAll : ∀ (ds : List (String × String)) (s : Scope), (s.declareAll ds).kind = s.kind
  | [], _ => rfl
  | d :: ds, s => (kind_declareAll ds (s.declare d.1 d.2)).trans (kind_declare s d.1 d.2)

/-! ## Chains -/

theorem lookup_append (c₁ c₂ : List Scope) (x : String) : lookup (c₁ ++ c₂) x = (lookup c₁ x).or (lookup c₂ x) :=
  List.findSome?_append

theorem isBound_cons (s : Scope) (c : List Scope) (x : String) : isBound (s :: c) x = ((s.find? x).isSome || isBound c x) := by
  unfold isBound lookup; rw [List.findSome?_cons]; cases s.find? x <;> simp

theorem isBound_eq_false_iff (c : List Scope) (x : String) : isBound c x = false ↔ ∀ s ∈ c, s.find? x = none := by
  unfold isBound lookup
  rw [Option.isSome_eq_false_iff, Option.isNone_iff_eq_none, List.findSome?_eq_none_iff]

end Scope
end TagAlias
