import TagAlias.Proofs.Alias.Planned
import TagAlias.Proofs.Component.Attribution
import TagAlias.Proofs.Syntax.Nested
/-!
# Where bodies take their declarations

In a well-nested tree whose bodies stand in braces, the start of a body lies between the braces, inside no child of the body,
behind its directives and not behind its first other statement (`bodyStart_isLocal`).  So it lies strictly inside its
method.  Two methods lie side by side or one in a child of the other, and either way they start apart (`bodyStart_ne`): a
point of a plan is asked for by one method alone (`bodyStarts_unshared`).
-/
namespace TagAlias

/-! ## Nodes side by side -/

namespace Node

theorem Nested.childrenIn {n : Node} (h : n.Nested) : NestedIn n.start n.stop n.children := by
  cases n
  exact h.2

theorem NestedIn.nested : ∀ {cs : List Node} {start stop : Nat} {c : Node}, NestedIn start stop cs → c ∈ cs → c.Nested
  | _ :: _, _, _, _, h, hc => by
    rcases List.mem_cons.1 hc with rfl | hc
    · exact h.2.1
    · exact h.2.2.nested hc

theorem NestedIn.pairwise : ∀ {cs : List Node} {start stop : Nat}, NestedIn start stop cs →
    cs.Pairwise (fun a b => a.stop ≤ b.start)
  | [], _, _, _ => .nil
  | _ :: _, _, _, h => .cons (fun _ hb => (NestedIn.span_child h.2.2 hb).1) h.2.2.pairwise

theorem Nested.span_child {n c : Node} (h : n.Nested) (hc : c ∈ n.children) : n.start ≤ c.start ∧ c.stop ≤ n.stop := by
  have hspan := h.childrenIn.span_child hc
  exact ⟨hspan.1, hspan.2.2⟩

theorem Nested.at? : ∀ (path : List Nat) {n m : Node}, n.Nested → n.at? path = some m → m.Nested
  | [], n, m, h, hm => by
    rw [at?_nil, Option.some.injEq] at hm
    exact hm ▸ h
  | i :: path, n, m, h, hm => by
    rw [at?_cons] at hm
    obtain ⟨c, hc, hm⟩ := Option.bind_eq_some_iff.1 hm
    exact Nested.at? path (h.childrenIn.nested (List.mem_of_getElem? hc)) hm

/-- Of two children the one in front ends before the other begins. -/
theorem Nested.apart_children {n a b : Node} (h : n.Nested) {i j : Nat} (ha : n.children[i]? = some a)
    (hb : n.children[j]? = some b) (hij : i < j) : a.stop ≤ b.start := by
  obtain ⟨hi, rfl⟩ := List.getElem?_eq_some_iff.1 ha
  obtain ⟨hj, rfl⟩ := List.getElem?_eq_some_iff.1 hb
  exact List.pairwise_iff_getElem.1 h.childrenIn.pairwise i j hi hj hij

/-- **Two nodes of which neither lies below the other are disjoint.** -/
theorem Nested.disjoint : ∀ (p q : List Nat) {n a b : Node}, n.Nested → n.at? p = some a → n.at? q = some b →
    ¬ p <+: q → ¬ q <+: p → a.stop ≤ b.start ∨ b.stop ≤ a.start
  | [], q, _, _, _, _, _, _, hpq, _ => absurd (List.nil_prefix) hpq
  | _ :: _, [], _, _, _, _, _, _, _, hqp => absurd (List.nil_prefix) hqp
  | i :: p, j :: q, n, a, b, h, ha, hb, hpq, hqp => by
    rw [at?_cons] at ha hb
    obtain ⟨c, hc, ha⟩ := Option.bind_eq_some_iff.1 ha
    obtain ⟨d, hd, hb⟩ := Option.bind_eq_some_iff.1 hb
    have hcn := h.childrenIn.nested (List.mem_of_getElem? hc)
    have hdn := h.childrenIn.nested (List.mem_of_getElem? hd)
    have hac := Nested.span c hcn (mem_preorder_of_at? p ha)
    have hbd := Nested.span d hdn (mem_preorder_of_at? q hb)
    rcases Nat.lt_trichotomy i j with hij | rfl | hij
    · have := h.apart_children hc hd hij
      left; omega
    · rw [hc, Option.some.injEq] at hd
      subst hd
      refine Nested.disjoint p q hcn ha hb (fun hp => hpq ?_) (fun hq => hqp ?_)
      · exact List.cons_prefix_cons.2 ⟨rfl, hp⟩
      · exact List.cons_prefix_cons.2 ⟨rfl, hq⟩
    · have := h.apart_children hd hc hij
      right; omega

end Node

namespace Component

open Node (Misses)

/-! ## The start of a body -/

/-- A token of the given text, which is not empty. -/
structure IsToken (text : String) (n : Node) : Prop where
  kind : n.kind = text
  bare : n.named = false
  nonempty : n.start < n.stop

/-- A body between braces. -/
structure IsBraced (body : Node) : Prop where
  opening : ∃ t, body.children.head? = some t ∧ IsToken "\x7b" t
  closing : ∃ t, body.children.getLast? = some t ∧ IsToken "\x7d" t

instance (text : String) (n : Node) : Decidable (IsToken text n) :=
  decidable_of_iff (n.kind = text ∧ n.named = false ∧ n.start < n.stop)
    ⟨fun ⟨hkind, hbare, hnonempty⟩ => ⟨hkind, hbare, hnonempty⟩, fun h => ⟨h.kind, h.bare, h.nonempty⟩⟩

instance (body : Node) : Decidable (IsBraced body) :=
  decidable_of_iff ((∃ t ∈ body.children.head?, IsToken "\x7b" t) ∧ ∃ t ∈ body.children.getLast?, IsToken "\x7d" t)
    ⟨fun ⟨hopening, hclosing⟩ => ⟨hopening, hclosing⟩, fun h => ⟨h.opening, h.closing⟩⟩

/-- An offset at which declarations may go into a body. -/
structure IsLocal (body : Node) (o : Nat) : Prop where
  afterOpening : ∀ t, body.children.head? = some t → t.stop ≤ o
  beforeClosing : ∀ t, body.children.getLast? = some t → o ≤ t.start
  apart : ∀ c ∈ body.children, Misses o c
  afterPrologue : ∀ d ∈ (statements body).takeWhile isDirective, d.stop ≤ o
  beforeFirst : ∀ s, ((statements body).dropWhile isDirective).head? = some s → o ≤ s.start

/-- The children of a body are an opening brace, what stands between the braces, and a closing one. -/
theorem IsBraced.children_eq {body : Node} (h : IsBraced body) : ∃ opening inner closing,
    body.children = opening :: (inner ++ [closing]) ∧ IsToken "\x7b" opening ∧ IsToken "\x7d" closing := by
  obtain ⟨opening, hhead, hopening⟩ := h.opening
  obtain ⟨closing, hlast, hclosing⟩ := h.closing
  obtain ⟨rest, hrest⟩ := List.head?_eq_some_iff.1 hhead
  cases hr : rest.getLast? with
  | none =>
    -- One token cannot be both braces.
    rw [List.getLast?_eq_none_iff] at hr
    rw [hrest, hr, List.getLast?_singleton, Option.some.injEq] at hlast
    have hkind : "\x7b" = "\x7d" := by rw [← hopening.kind, ← hclosing.kind, hlast]
    exact absurd hkind (by decide)
  | some last =>
    obtain ⟨inner, rfl⟩ := List.getLast?_eq_some_iff.1 hr
    rw [hrest, ← List.cons_append, List.getLast?_concat, Option.some.injEq] at hlast
    exact ⟨opening, inner, closing, by rw [hrest, hlast], hopening, hclosing⟩

theorem opening_of_head? {body opening t : Node} {cs : List Node} (hchildren : body.children = opening :: cs)
    (ht : body.children.head? = some t) : t = opening := by
  rw [hchildren, List.head?_cons, Option.some.injEq] at ht
  exact ht.symm

theorem closing_of_getLast? {body opening closing t : Node} {inner : List Node}
    (hchildren : body.children = opening :: (inner ++ [closing])) (ht : body.children.getLast? = some t) : t = closing := by
  rw [hchildren, ← List.cons_append, List.getLast?_concat, Option.some.injEq] at ht
  exact ht.symm

/-- A statement stands between the braces. -/
theorem between_braces {body : Node} (hnested : body.Nested) {opening closing : Node} {inner : List Node}
    (hchildren : body.children = opening :: (inner ++ [closing])) (hopening : IsToken "\x7b" opening)
    (hclosing : IsToken "\x7d" closing) {s : Node} (hs : s ∈ statements body) :
    opening.stop ≤ s.start ∧ s.start ≤ s.stop ∧ s.stop ≤ closing.start := by
  have hnamed : s.named = true := (List.mem_filter.1 (List.mem_filter.1 hs).1).2
  have hchild : s ∈ opening :: (inner ++ [closing]) := hchildren ▸ (statements_sublist body).subset hs
  have hpairwise := hchildren ▸ hnested.childrenIn.pairwise
  have hordered := (hnested.childrenIn.nested ((statements_sublist body).subset hs)).ordered
  rw [List.pairwise_cons, List.pairwise_append] at hpairwise
  rw [List.mem_cons, List.mem_append, List.mem_singleton] at hchild
  rcases hchild with rfl | hin | rfl
  · rw [hopening.bare] at hnamed; cases hnamed
  · exact ⟨hpairwise.1 s (List.mem_append_left _ hin), hordered,
      hpairwise.2.2.2 s hin closing (List.mem_singleton_self closing)⟩
  · rw [hclosing.bare] at hnamed; cases hnamed

/-- Where a child begins or ends, no child is cut. -/
theorem misses_of_child {n c : Node} (h : n.Nested) (hc : c ∈ n.children) :
    (∀ d ∈ n.children, Misses c.start d) ∧ ∀ d ∈ n.children, Misses c.stop d := by
  obtain ⟨i, hi⟩ := List.getElem?_of_mem hc
  have hside : ∀ d ∈ n.children, d.stop ≤ c.start ∨ d = c ∨ c.stop ≤ d.start := by
    intro d hd
    obtain ⟨j, hj⟩ := List.getElem?_of_mem hd
    rcases Nat.lt_trichotomy i j with hij | rfl | hij
    · exact .inr (.inr (h.apart_children hi hj hij))
    · rw [hi, Option.some.injEq] at hj; exact .inr (.inl hj.symm)
    · exact .inl (h.apart_children hj hi hij)
  have hordered := (h.childrenIn.nested hc).ordered
  constructor
  all_goals
    rintro d hd ⟨hstart, hstop⟩
    rcases hside d hd with hside | rfl | hside <;> omega

section

variable {body opening closing : Node} {inner : List Node} (hnested : body.Nested)
  (hchildren : body.children = opening :: (inner ++ [closing])) (hopening : IsToken "\x7b" opening)
  (hclosing : IsToken "\x7d" closing)

include hnested hchildren hopening hclosing

/-- In front of the first statement that is no directive stand the directives. -/
theorem isLocal_first {s : Node} (hs : ((statements body).dropWhile isDirective).head? = some s) : IsLocal body s.start := by
  have hsplit := List.takeWhile_append_dropWhile (p := isDirective) (l := statements body)
  have hpairwise := hnested.childrenIn.pairwise.sublist (statements_sublist body)
  have hmem : s ∈ (statements body).dropWhile isDirective := List.mem_of_head? hs
  have hin : s ∈ statements body := (List.dropWhile_sublist _).subset hmem
  have hbetween := between_braces hnested hchildren hopening hclosing hin
  rw [← hsplit, List.pairwise_append] at hpairwise
  refine ⟨fun t ht => ?_, fun t ht => ?_, ?_, fun d hd => ?_, fun s' hs' => ?_⟩
  · rw [opening_of_head? hchildren ht]; exact hbetween.1
  · rw [closing_of_getLast? hchildren ht]; omega
  · exact (misses_of_child hnested ((statements_sublist body).subset hin)).1
  · exact hpairwise.2.2 d hd s hmem
  · rw [hs, Option.some.injEq] at hs'
    rw [hs']

/-- Where all statements are directives, behind the last of them. -/
theorem isLocal_directives {d : Node} (hall : (statements body).dropWhile isDirective = [])
    (hd : (statements body).getLast? = some d) : IsLocal body d.stop := by
  have hpairwise := hnested.childrenIn.pairwise.sublist (statements_sublist body)
  have hin : d ∈ statements body := List.mem_of_getLast? hd
  have hbetween := between_braces hnested hchildren hopening hclosing hin
  obtain ⟨before, hbefore⟩ := List.getLast?_eq_some_iff.1 hd
  refine ⟨fun t ht => ?_, fun t ht => ?_, ?_, fun e he => ?_, fun s hs => ?_⟩
  · rw [opening_of_head? hchildren ht]; omega
  · rw [closing_of_getLast? hchildren ht]; exact hbetween.2.2
  · exact (misses_of_child hnested ((statements_sublist body).subset hin)).2
  · have he := (List.takeWhile_sublist _).subset he
    rw [hbefore, List.mem_append, List.mem_singleton] at he
    rw [hbefore, List.pairwise_append] at hpairwise
    rcases he with he | rfl
    · have := hpairwise.2.2 e he d (List.mem_singleton_self d)
      omega
    · exact Nat.le_refl _
  · rw [hall] at hs; cases hs

omit hopening hclosing in
/-- Where there is no statement, behind the brace. -/
theorem isLocal_opening (hnone : statements body = []) : IsLocal body opening.stop := by
  have hopen : opening ∈ body.children := by rw [hchildren]; exact List.mem_cons_self
  have hpair := hchildren ▸ hnested.childrenIn.pairwise
  refine ⟨fun t ht => ?_, fun t ht => ?_, ?_, fun d hd => ?_, fun s hs => ?_⟩
  · rw [opening_of_head? hchildren ht]
  · rw [closing_of_getLast? hchildren ht]
    exact (List.pairwise_cons.1 hpair).1 closing (List.mem_append_right _ (List.mem_singleton_self closing))
  · exact (misses_of_child hnested hopen).2
  · rw [hnone] at hd; cases hd
  · rw [hnone] at hs; cases hs

end

/-- **The start of a body is local to it.** -/
theorem bodyStart_isLocal (src : Bytes) {body : Node} (hnested : body.Nested) (hbraced : IsBraced body) :
    ∃ o lead, bodyStart src body = .ok (o, lead) ∧ IsLocal body o := by
  obtain ⟨opening, inner, closing, hchildren, hopening, hclosing⟩ := hbraced.children_eq
  obtain ⟨⟨o, lead⟩, hstart⟩ : ∃ start, bodyStart src body = .ok start :=
    exists_bodyStart_iff.2 (by rw [hchildren]; exact List.cons_ne_nil _ _)
  refine ⟨o, lead, hstart, ?_⟩
  cases takesAt_of_bodyStart hstart with
  | first hs => exact isLocal_first hnested hchildren hopening hclosing hs
  | directives hall hd => exact isLocal_directives hnested hchildren hopening hclosing hall hd
  | opening hnone hbrace =>
    rw [opening_of_head? hchildren hbrace]
    exact isLocal_opening hnested hchildren hnone

/-- The start of a body lies strictly inside the body. -/
theorem IsLocal.strictly {body : Node} (hnested : body.Nested) (hbraced : IsBraced body) {o : Nat} (h : IsLocal body o) :
    body.start < o ∧ o < body.stop := by
  obtain ⟨opening, hhead, hopening⟩ := hbraced.opening
  obtain ⟨closing, hlast, hclosing⟩ := hbraced.closing
  have hfirst := hnested.span_child (List.mem_of_head? hhead)
  have hfinal := hnested.span_child (List.mem_of_getLast? hlast)
  have := h.afterOpening opening hhead
  have := h.beforeClosing closing hlast
  have := hopening.nonempty
  have := hclosing.nonempty
  omega

/-! ## Two methods -/

section

variable {src : Bytes} {stem : String} {root : Node}

/-- A component method with a body between braces, and an offset local to the body. -/
structure StartsAt (src : Bytes) (stem : String) (p : Place) (o : Nat) : Prop where
  method : IsMethodPlace src stem p
  body : ∃ body, p.node.child? "body" = some body ∧ IsBraced body ∧ IsLocal body o

theorem StartsAt.strictly {p : Place} {o : Nat} (hnested : p.node.Nested) (h : StartsAt src stem p o) :
    p.node.start < o ∧ o < p.node.stop := by
  obtain ⟨body, hbody, hbraced, hlocal⟩ := h.body
  have hchild := Node.mem_children_of_child? hbody
  have hspan := hnested.span_child hchild
  have := hlocal.strictly (hnested.childrenIn.nested hchild) hbraced
  omega

/-- **A method below another starts elsewhere.**  It lies either in a child of the other's body, which the other's offset does
not cut, or in another child than the body. -/
theorem StartsAt.ne_of_below {p q : Place} {o o' : Nat} (hnested : p.node.Nested) (hp : StartsAt src stem p o)
    (hq : StartsAt src stem q o') {i : Nat} {rel : List Nat}
    (hat : p.node.placeAt? p.parent p.path (i :: rel) = some q) : o ≠ o' := by
  obtain ⟨body, hbody, hbraced, hlocal⟩ := hp.body
  obtain ⟨j, hj⟩ := List.getElem?_of_mem (Node.mem_children_of_child? hbody)
  rw [Node.placeAt?_cons] at hat
  obtain ⟨c, hc, hat⟩ := Option.bind_eq_some_iff.1 hat
  have hnode := Node.at?_of_placeAt? rel hat
  have hcnested := hnested.childrenIn.nested (List.mem_of_getElem? hc)
  have hstrict := hq.strictly (Node.Nested.at? rel hcnested hnode)
  have hcspan := Node.Nested.span c hcnested (Node.mem_preorder_of_at? rel hnode)
  have hbstrict := hlocal.strictly (hnested.childrenIn.nested (List.mem_of_getElem? hj)) hbraced
  rcases Nat.lt_trichotomy i j with hij | rfl | hij
  · have := hnested.apart_children hc hj hij
    omega
  · rw [hc, Option.some.injEq] at hj
    subst hj
    cases rel with
    | nil =>
      -- The body of a method is no member of a class.
      rw [Node.placeAt?_nil, Option.some.injEq] at hat
      obtain ⟨name, hmethod⟩ := hp.method
      obtain ⟨name', hmethod'⟩ := hq.method
      have hkind := hmethod'.parent
      rw [← hat, Option.some.injEq] at hkind
      have hmem := hmethod.kind
      rw [hkind] at hmem
      exact absurd hmem (by decide)
    | cons k rel =>
      rw [Node.at?_cons] at hnode
      obtain ⟨d, hd, hnode⟩ := Option.bind_eq_some_iff.1 hnode
      have hdmem := List.mem_of_getElem? hd
      have hdspan := Node.Nested.span d (hcnested.childrenIn.nested hdmem) (Node.mem_preorder_of_at? rel hnode)
      have hmiss := hlocal.apart d hdmem
      intro heq
      exact hmiss ⟨by omega, by omega⟩
  · have := hnested.apart_children hj hc hij
    omega

theorem StartsAt.ne_of_prefix {p q : Place} {o o' : Nat} (hnested : root.Nested) (hp : p ∈ root.places none [])
    (hq : q ∈ root.places none []) (hpo : StartsAt src stem p o) (hqo : StartsAt src stem q o') (hne : p.path ≠ q.path)
    (hpre : p.path <+: q.path) : o ≠ o' := by
  obtain ⟨rel, hrel⟩ := hpre
  have hat := Node.placeAt?_of_mem_places hq
  rw [← hrel, Node.placeAt?_append p.path rel (Node.placeAt?_of_mem_places hp)] at hat
  cases rel with
  | nil => exact absurd (by rw [← hrel, List.append_nil]) hne
  | cons i rel => exact hpo.ne_of_below (hnested.at? p.path (Node.at?_of_mem_places hp)) hqo hat

/-- **Two component methods never start at the same offset.** -/
theorem bodyStart_ne (hnested : root.Nested) {p q : Place} (hp : p ∈ root.places none []) (hq : q ∈ root.places none [])
    {o o' : Nat} (hpo : StartsAt src stem p o) (hqo : StartsAt src stem q o') (hne : p.path ≠ q.path) : o ≠ o' := by
  by_cases hpre : p.path <+: q.path
  · exact StartsAt.ne_of_prefix hnested hp hq hpo hqo hne hpre
  by_cases hpre' : q.path <+: p.path
  · exact (StartsAt.ne_of_prefix hnested hq hp hqo hpo hne.symm hpre').symm
  have hpat := Node.at?_of_mem_places hp
  have hqat := Node.at?_of_mem_places hq
  have := hpo.strictly (hnested.at? p.path hpat)
  have := hqo.strictly (hnested.at? q.path hqat)
  rcases hnested.disjoint p.path q.path hpat hqat hpre hpre' with h | h <;> omega

/-! ## The methods of a survey -/

/-- Each body of a component method stands in braces. -/
def BodiesBraced (src : Bytes) (stem : String) (root : Node) : Prop :=
  ∀ p ∈ root.places none [], IsMethodPlace src stem p → ∀ body, p.node.child? "body" = some body → IsBraced body

theorem startsAt_of_method (hnested : root.Nested) (hbraced : BodiesBraced src stem root) {p : Place}
    (hp : p ∈ root.places none []) (hplace : IsMethodPlace src stem p) {name : String} {m : ComponentMethod}
    (h : method src name p.node = .ok m) {o : Int} (ho : m.bodyStart = some o) :
    ∃ n : Nat, o = n ∧ StartsAt src stem p n := by
  have hstart := bodyStart_of_method h
  cases hbody : p.node.child? "body" with
  | none => rw [hbody, ho] at hstart; cases hstart
  | some body =>
    rw [hbody] at hstart
    obtain ⟨n, lead, hn, hm⟩ := hstart
    have hpnested := hnested.at? p.path (Node.at?_of_mem_places hp)
    have hbnested := hpnested.childrenIn.nested (Node.mem_children_of_child? hbody)
    obtain ⟨n', lead', hn', hlocal⟩ := bodyStart_isLocal src hbnested (hbraced p hp hplace body hbody)
    rw [hn] at hn'
    cases hn'
    rw [ho, Option.some.injEq] at hm
    exact ⟨n, hm, hplace, body, hbody, hbraced p hp hplace body hbody, hlocal⟩

theorem map_fst_prefix_of_upTo {seen all : List (Place × List Place)} (h : Survey.UpTo seen all) :
    seen.map (·.1) <+: all.map (·.1) := by
  induction h with
  | nil => exact List.nil_prefix
  | last _ => exact ⟨_, rfl⟩
  | cons _ ih => exact List.cons_prefix_cons.2 ⟨rfl, ih⟩

theorem pairwise_of_forall₂ {α β : Type} {R : α → β → Prop} {S : α → α → Prop} {T : β → β → Prop} {as : List α}
    {bs : List β} (h : List.Forall₂ R as bs) (hstep : ∀ a a' b b', R a b → R a' b' → a ∈ as → a' ∈ as → S a a' → T b b')
    (has : as.Pairwise S) : bs.Pairwise T := by
  induction h with
  | nil => exact .nil
  | @cons a b as bs hab hrest ih =>
    rw [List.pairwise_cons] at has
    refine .cons ?_ (ih (fun a a' b b' ha ha' hm hm' => hstep a a' b b' ha ha' (List.mem_cons_of_mem _ hm)
      (List.mem_cons_of_mem _ hm')) has.2)
    intro b' hb'
    obtain ⟨a', ha', hab'⟩ := Survey.exists_mem_of_forall₂ hrest hb'
    exact hstep a a' b b' hab hab' List.mem_cons_self (List.mem_cons_of_mem _ ha') (has.1 a' ha')

/-- **No two methods of a survey start at the same offset.** -/
theorem pairwise_bodyStart (hnested : root.Nested) (hbraced : BodiesBraced src stem root) (asks : TagReference → Bool) :
    (Survey.ofTree src stem asks root).methods.Pairwise
      (fun m m' => ∀ o, m.1.bodyStart = some o → m'.1.bodyStart ≠ some o) := by
  have hattributes := Survey.attributes src stem root
  obtain ⟨seen, hupTo, htells, -⟩ := Survey.ofResults_upTo src stem (Scopes.ofTree src root) asks
    (Survey.bindsOf src root) (root.places none [])
  rw [← Survey.ofTree_eq_ofResults] at htells
  have hsublist := (map_fst_prefix_of_upTo hupTo).sublist.trans hattributes.methods_sublist
  have hplaces : (seen.map (·.1)).Pairwise (fun p q => p.path < q.path) :=
    List.Pairwise.sublist hsublist (Node.places_pairwise none [] root)
  rw [List.pairwise_map] at hplaces
  refine pairwise_of_forall₂ htells ?_ hplaces
  intro e e' m m' hm hm' he he' hlt o ho ho'
  have hmem : ∀ e ∈ seen, e.1 ∈ root.places none [] := fun e he => hsublist.subset (List.mem_map_of_mem he)
  obtain ⟨n, hn, hstarts⟩ := startsAt_of_method hnested hbraced (hmem e he) ⟨_, hm.named⟩ hm.method ho
  obtain ⟨n', hn', hstarts'⟩ := startsAt_of_method hnested hbraced (hmem e' he') ⟨_, hm'.named⟩ hm'.method ho'
  have hne : e.1.path ≠ e'.1.path := fun h => by rw [h] at hlt; exact List.lt_irrefl _ hlt
  exact bodyStart_ne hnested (hmem e he) (hmem e' he') hstarts hstarts' hne (by omega)

theorem filter_bodyStart_eq {methods : List (ComponentMethod × List TagReference)}
    (h : methods.Pairwise (fun m m' => ∀ o, m.1.bodyStart = some o → m'.1.bodyStart ≠ some o)) {o : Int}
    {m : ComponentMethod × List TagReference} (hm : m ∈ methods) (ho : m.1.bodyStart = some o) :
    methods.filter (·.1.bodyStart == some o) = [m] := by
  have hall : ∀ m' ∈ methods.filter (·.1.bodyStart == some o), m'.1.bodyStart = some o := fun m' hm' =>
    beq_iff_eq.1 (List.mem_filter.1 hm').2
  have hin : m ∈ methods.filter (·.1.bodyStart == some o) := List.mem_filter.2 ⟨hm, beq_iff_eq.2 ho⟩
  have hpair := h.filter (·.1.bodyStart == some o)
  revert hall hin hpair
  cases methods.filter (·.1.bodyStart == some o) with
  | nil => intro _ hin; cases hin
  | cons a rest =>
    intro hall hin hpair
    cases rest with
    | nil => rw [List.mem_singleton.1 hin]
    | cons b rest =>
      exact absurd (hall b (List.mem_cons_of_mem _ List.mem_cons_self))
        ((List.pairwise_cons.1 hpair).1 b List.mem_cons_self o (hall a List.mem_cons_self))

/-- **Places of insertion are local and never shared.**  The body of each component method starts at an offset that is local
to it, and those of two methods at different offsets.  So each point of a plan is asked for by just one method: it has the
method's name, and the names that this method's tags need, in order and each once. -/
theorem bodyStarts_unshared (src : Bytes) (rule : Alias.Rule) (file : String) (root : Node) (hnested : root.Nested)
    (hbraced : BodiesBraced src rule.stem root) :
    (∀ p ∈ root.places none [], IsMethodPlace src rule.stem p → ∀ body, p.node.child? "body" = some body →
      ∃ o lead, bodyStart src body = .ok (o, lead) ∧ IsLocal body o ∧
        (∀ name m, method src name p.node = .ok m → m.bodyStart = some (o : Int)) ∧
        ∀ q ∈ root.places none [], IsMethodPlace src rule.stem q → q.path ≠ p.path →
          ∀ body', q.node.child? "body" = some body' → ∀ o' lead', bodyStart src body' = .ok (o', lead') → o' ≠ o) ∧
    (Survey.ofTree src rule.stem rule.asks root).methods.Pairwise
      (fun m m' => ∀ o, m.1.bodyStart = some o → m'.1.bodyStart ≠ some o) ∧
    ∀ c, Alias.collectSurvey rule file (Survey.ofTree src rule.stem rule.asks root) = .ok c → ∀ q ∈ c.plan.points,
      ∃ m, (Survey.ofTree src rule.stem rule.asks root).methods.filter (·.1.bodyStart == some q.offset) = [m] ∧
        q.method = m.1.name ∧ q.names = ((m.2.filter rule.qualifies).map (·.name)).eraseDups := by
  have hlocal : ∀ p ∈ root.places none [], IsMethodPlace src rule.stem p → ∀ body, p.node.child? "body" = some body →
      ∃ o lead, bodyStart src body = .ok (o, lead) ∧ IsLocal body o := fun p hp hplace body hbody =>
    bodyStart_isLocal src ((hnested.at? p.path (Node.at?_of_mem_places hp)).childrenIn.nested
      (Node.mem_children_of_child? hbody)) (hbraced p hp hplace body hbody)
  refine ⟨?_, pairwise_bodyStart hnested hbraced rule.asks, ?_⟩
  · intro p hp hplace body hbody
    obtain ⟨o, lead, ho, hin⟩ := hlocal p hp hplace body hbody
    refine ⟨o, lead, ho, hin, ?_, ?_⟩
    · intro name m hm
      have hstart := bodyStart_of_method hm
      rw [hbody] at hstart
      obtain ⟨o', lead', ho', hstart⟩ := hstart
      rw [ho] at ho'
      cases ho'
      exact hstart
    · intro q hq hplace' hne body' hbody' o' lead' ho'
      obtain ⟨o'', lead'', ho'', hin'⟩ := hlocal q hq hplace' body' hbody'
      rw [ho'] at ho''
      cases ho''
      exact bodyStart_ne hnested hq hp ⟨hplace', body', hbody', hbraced q hq hplace' body' hbody', hin'⟩
        ⟨hplace, body, hbody, hbraced p hp hplace body hbody, hin⟩ hne
  · intro c hc q hq
    obtain ⟨hcollect, -⟩ := Alias.collectSurvey_ok hc
    obtain ⟨m, hm, ho, -⟩ := (Alias.exists_point_iff hcollect q.offset).1 ⟨q, hq, rfl⟩
    have hfilter := filter_bodyStart_eq (pairwise_bodyStart hnested hbraced rule.asks) hm ho
    obtain ⟨m', hm', heq⟩ := Option.map_eq_some_iff.1 (Alias.pointAt_of_mem hcollect hq)
    have hfound : m' = m := by
      have hsome := List.find?_some hm'
      have hin : m' ∈ (Survey.ofTree src rule.stem rule.asks root).methods.filter (·.1.bodyStart == some q.offset) :=
        List.mem_filter.2 ⟨List.mem_of_find?_eq_some hm', (Bool.and_eq_true_iff.1 hsome).1⟩
      rw [hfilter] at hin
      exact List.mem_singleton.1 hin
    refine ⟨m, hfilter, ?_, ?_⟩
    · rw [← congrArg InsertionPoint.method heq, hfound]
    · rw [← congrArg InsertionPoint.names heq, Alias.namesAt, hfilter, List.flatMap_cons, List.flatMap_nil, List.append_nil]

end

/-! ## A method in a class in a method -/

def innerMethodText : String := "render() \x7b class \x7b renderX() \x7b 'u' \x7d \x7d \x7d"

def innerMethod : Node :=
  .mk ⟨"class_body", 0, 40, "", true, false⟩ [.mk ⟨"method_definition", 0, 40, "", true, false⟩
    [.mk ⟨"property_identifier", 0, 6, "name", true, false⟩ [],
      .mk ⟨"statement_block", 9, 40, "body", true, false⟩
        [.mk ⟨"\x7b", 9, 10, "", false, false⟩ [],
          .mk ⟨"class", 11, 38, "", true, false⟩ [.mk ⟨"class_body", 17, 38, "body", true, false⟩
            [.mk ⟨"\x7b", 17, 18, "", false, false⟩ [],
              .mk ⟨"method_definition", 19, 36, "", true, false⟩
                [.mk ⟨"property_identifier", 19, 26, "name", true, false⟩ [],
                  .mk ⟨"statement_block", 29, 36, "body", true, false⟩
                    [.mk ⟨"\x7b", 29, 30, "", false, false⟩ [],
                      .mk ⟨"expression_statement", 31, 34, "", true, false⟩
                        [.mk ⟨"string", 31, 34, "", true, false⟩ []],
                      .mk ⟨"\x7d", 35, 36, "", false, false⟩ []]],
              .mk ⟨"\x7d", 37, 38, "", false, false⟩ []]],
          .mk ⟨"\x7d", 39, 40, "", false, false⟩ []]]]

/-- The outer method starts in front of the class, the inner one behind its directive. -/
theorem bodyStarts_innerMethod : innerMethod.Nested ∧
    (Survey.ofTree (Bytes.ofString innerMethodText) "render" (⟨"render", .aliased⟩ : Alias.Rule).asks innerMethod).methods.map
      (·.1.bodyStart) = [some 11, some 34] ∧
    (Survey.ofTree (Bytes.ofString innerMethodText) "render" (⟨"render", .aliased⟩ : Alias.Rule).asks innerMethod).methods.Pairwise
      (fun m m' => ∀ o, m.1.bodyStart = some o → m'.1.bodyStart ≠ some o) := by
  have hnested : innerMethod.Nested := by decide
  have hbraced : BodiesBraced (Bytes.ofString innerMethodText) "render" innerMethod := by
    intro p hp hplace body hbody
    obtain ⟨name, hmethod⟩ := hplace
    have hall : ∀ p ∈ innerMethod.places none [], p.node.kind ∈ methodKinds → ∀ body ∈ (p.node.child? "body").toList,
        IsBraced body := by decide +kernel
    exact hall p hp hmethod.kind body (by rw [hbody]; exact List.mem_singleton_self body)
  exact ⟨hnested, by decide +kernel,
    (bodyStarts_unshared (Bytes.ofString innerMethodText) ⟨"render", .aliased⟩ "" innerMethod hnested hbraced).2.1⟩

end Component
end TagAlias
