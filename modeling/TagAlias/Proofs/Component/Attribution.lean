import TagAlias.Component.Survey
import TagAlias.Proofs.Alias.Collected
import TagAlias.Proofs.Component.Method
import TagAlias.Proofs.Component.Nearest
import TagAlias.Proofs.Scope.Reads
/-!
# To which method a survey gives a tag

A survey reads two lists along, that of the component methods and for each of them that of its tags, and stops where the
first thing cannot be read.  Its references are read along the tags that a method owns (`references_reads`), its methods
along all entries of the tree (`ofResults_upTo`).  So each tag in a component method is found once, under the nearest
(`tags_attributed`), and there is no fault where every node can be read and located and bodies are not empty
(`fault_eq_none`).
-/
namespace TagAlias
namespace Survey

open Component

/-! ## Reading along a list -/

section

variable {α β : Type} {R : β → α → Prop} {rs rs' : List (Except Failure α)} {bs bs' : List β}

/-- The results are those of a list one by one, up to the first error. -/
inductive Reads (R : β → α → Prop) : List (Except Failure α) → List β → Prop where
  | nil : Reads R [] []
  | error {e : Failure} {rs : List (Except Failure α)} {bs : List β} : Reads R (.error e :: rs) bs
  | ok {a : α} {b : β} {rs : List (Except Failure α)} {bs : List β} (here : R b a) (rest : Reads R rs bs) :
    Reads R (.ok a :: rs) (b :: bs)

theorem Reads.append (h : Reads R rs bs) (h' : Reads R rs' bs') : Reads R (rs ++ rs') (bs ++ bs') := by
  induction h with
  | nil => exact h'
  | error => exact .error
  | ok here _ ih => exact .ok here ih

theorem Reads.upToError (h : Reads R rs bs) :
    ∃ seen, seen <+: bs ∧ List.Forall₂ R seen (upToError rs).1 ∧ ((upToError rs).2 = none → seen = bs) := by
  induction h with
  | nil => exact ⟨[], List.nil_prefix, .nil, fun _ => rfl⟩
  | error => exact ⟨[], List.nil_prefix, .nil, nofun⟩
  | @ok a b rs bs here _ ih =>
    obtain ⟨seen, hprefix, hseen, hall⟩ := ih
    refine ⟨b :: seen, List.cons_prefix_cons.2 ⟨rfl, hprefix⟩, .cons here hseen, ?_⟩
    intro hnone
    rw [hall hnone]

end

theorem Reads.withScopes {β : Type} {R : β → TagReference → Prop} {rs : List (Except Failure TagReference)} {bs : List β}
    (h : Reads R rs bs) (scopes : Except Utf8.Fault Scopes) (asks : TagReference → Bool) :
    Reads R (withScopes scopes asks rs) bs := by
  cases scopes with
  | ok s => exact h
  | error f =>
    induction h with
    | nil => exact .nil
    | error => exact .error
    | @ok a b rs bs here _ ih =>
      by_cases hasks : asks a = true
      · have hcons : Survey.withScopes (.error f) asks (.ok a :: rs) =
            .error (.refused (.undecodable f)) :: Survey.withScopes (.error f) asks rs := by
          simp only [Survey.withScopes, List.map_cons, Except.bind, hasks, if_true]
        rw [hcons]
        exact .error
      · have hcons : Survey.withScopes (.error f) asks (.ok a :: rs) = .ok a :: Survey.withScopes (.error f) asks rs := by
          simp only [Survey.withScopes, List.map_cons, Except.bind, hasks, if_false, Bool.false_eq_true]
        rw [hcons]
        exact .ok here ih

theorem ok_mem_of_mem_upToError {α : Type} : ∀ {rs : List (Except Failure α)} {a : α}, a ∈ (upToError rs).1 → .ok a ∈ rs
  | [], a, h => by cases h
  | .error e :: rs, a, h => by cases h
  | .ok b :: rs, a, h => by
    rw [upToError] at h
    rcases List.mem_cons.1 h with rfl | h
    · exact List.mem_cons_self
    · exact List.mem_cons_of_mem _ (ok_mem_of_mem_upToError h)

/-- A reference for which the declarations around it matter is told only where the scopes are known. -/
theorem known_of_mem_withScopes {scopes : Except Utf8.Fault Scopes} {asks : TagReference → Bool}
    {rs : List (Except Failure TagReference)} {r : TagReference} (h : .ok r ∈ Survey.withScopes scopes asks rs)
    (hasks : asks r = true) : ∃ s, scopes = .ok s := by
  cases scopes with
  | ok s => exact ⟨s, rfl⟩
  | error f =>
    obtain ⟨result, -, hresult⟩ := List.mem_map.1 h
    cases result with
    | error e => cases hresult
    | ok r' =>
      by_cases hasks' : asks r' = true
      · simp only [Except.bind, hasks', if_true] at hresult
        cases hresult
      · simp only [Except.bind, hasks'] at hresult
        rw [Except.ok.inj hresult] at hasks'
        exact absurd hasks hasks'

/-! ## References and the tags that a method owns -/

/-- What a reference says of the tag at a place: the text and the position of the root of its name, whether anything of the
name follows the root, and whether the root is bound there. -/
structure Refers (src : Bytes) (binds : List Nat → String → Bool) (q : Place) (r : TagReference) : Prop where
  root : ∃ levels root at_, IsTag q.node levels root ∧ root.text src = .ok r.name ∧
    (r.isMemberRoot = true ↔ 0 < levels) ∧ Position.ofOffset src root.start = .ok at_ ∧ r.line = at_.line ∧
    r.column = at_.column
  bound : r.bound = binds q.path r.name

def holdsTag (q : Place) : Bool := (tagRoot? q.node).isSome

theorem tagReferences_reads (src : Bytes) (binds : List Nat → String → Bool) (parent : Option String) (path : List Nat)
    (n : Node) : Reads (Refers src binds) (tagReferences src binds path n) ([⟨parent, path, n⟩].filter holdsTag) := by
  unfold tagReferences
  cases hroot : tagRoot? n with
  | none =>
    have hnone : holdsTag ⟨parent, path, n⟩ = false := by rw [holdsTag, hroot]; rfl
    rw [List.filter_singleton, hnone]
    exact .nil
  | some e =>
    obtain ⟨name, root⟩ := e
    have hsome : holdsTag ⟨parent, path, n⟩ = true := by rw [holdsTag, hroot]; rfl
    obtain ⟨hkind, hname, ⟨levels, hlevels⟩, hid⟩ := tagRoot?_eq_some_iff.1 hroot
    have htag : IsTag n levels root := ⟨hkind, ⟨name, hname, hlevels⟩, hid⟩
    rw [List.filter_singleton, hsome]
    dsimp only
    cases hat : Position.ofOffset src root.start with
    | error f => exact .error
    | ok at_ =>
      cases htext : root.text src with
      | error f => exact .error
      | ok text =>
        have hmember : Node.memberKinds.contains name.kind = true ↔ 0 < levels := by
          rw [hlevels.pos_iff, List.contains_iff_mem]
        exact .ok ⟨⟨levels, root, at_, htag, htext, hmember, hat, rfl, rfl⟩, rfl⟩ .nil

mutual

/-- **The references of a method are those of the tags in it that are in no other method further in.** -/
theorem references_reads (src : Bytes) (stem : String) (binds : List Nat → String → Bool) : ∀ (parent : Option String)
    (path : List Nat) (n : Node),
    Reads (Refers src binds) (references src stem binds path n) ((ownPlaces src stem parent path n).filter holdsTag)
  | parent, path, .mk l cs => by
    rw [references, ownPlaces, ← List.singleton_append, List.filter_append]
    exact (tagReferences_reads src binds parent path _).append (referencesIn_reads src stem binds l.kind path 0 cs)

theorem referencesIn_reads (src : Bytes) (stem : String) (binds : List Nat → String → Bool) : ∀ (parent : String)
    (path : List Nat) (i : Nat) (cs : List Node),
    Reads (Refers src binds) (referencesIn src stem binds parent path i cs)
      ((ownPlacesIn src stem parent path i cs).filter holdsTag)
  | parent, path, i, [] => by rw [referencesIn, ownPlacesIn]; exact .nil
  | parent, path, i, c :: cs => by
    have hrest := referencesIn_reads src stem binds parent path (i + 1) cs
    rw [referencesIn, ownPlacesIn, List.filter_append]
    cases methodName? src stem (some parent) c with
    | error f => exact .error
    | ok found =>
      cases found with
      | none => exact (references_reads src stem binds (some parent) (path ++ [i]) c).append hrest
      | some name => exact hrest

end

/-! ## Methods and their tags -/

def tagsOf (src : Bytes) (stem : String) (p : Place) : List Place :=
  (ownPlaces src stem p.parent p.path p.node).filter holdsTag

/-- A component method with its tags. -/
def listing? (src : Bytes) (stem : String) (p : Place) : Option (Place × List Place) :=
  match methodName? src stem p.parent p.node with
  | .ok (some _) => some (p, tagsOf src stem p)
  | _ => none

theorem listing?_eq_some_iff {src : Bytes} {stem : String} {p : Place} {e : Place × List Place} :
    listing? src stem p = some e ↔ IsMethodPlace src stem p ∧ e = (p, tagsOf src stem p) := by
  have hname : IsMethodPlace src stem p ↔ ∃ name, methodName? src stem p.parent p.node = .ok (some name) :=
    exists_congr (fun name => methodName?_eq_some_iff.symm)
  rw [hname]
  unfold listing?
  constructor
  · intro h
    split at h
    · next name hsome => exact ⟨⟨name, hsome⟩, (Option.some.inj h).symm⟩
    · cases h
  · rintro ⟨⟨name, hsome⟩, rfl⟩
    rw [hsome]

/-- What of a list of methods with their tags comes before a fault: of the last method maybe not all tags. -/
inductive UpTo : List (Place × List Place) → List (Place × List Place) → Prop where
  | nil {all : List (Place × List Place)} : UpTo [] all
  | last {p : Place} {seen tags : List Place} {all : List (Place × List Place)} (h : seen <+: tags) :
    UpTo [(p, seen)] ((p, tags) :: all)
  | cons {e : Place × List Place} {seen all : List (Place × List Place)} (h : UpTo seen all) : UpTo (e :: seen) (e :: all)

theorem UpTo.map_fst_subset {seen all : List (Place × List Place)} (h : UpTo seen all) {e : Place × List Place}
    (he : e ∈ seen) : e.1 ∈ all.map (·.1) := by
  induction h with
  | nil => cases he
  | last =>
    obtain rfl := List.mem_singleton.1 he
    exact List.mem_cons_self
  | cons _ ih =>
    rcases List.mem_cons.1 he with rfl | he
    · exact List.mem_cons_self
    · exact List.mem_cons_of_mem _ (ih he)

/-- What a survey tells of a component method and its tags. -/
structure Tells (src : Bytes) (stem : String) (scopes : Except Utf8.Fault Scopes) (asks : TagReference → Bool)
    (binds : List Nat → String → Bool) (e : Place × List Place) (m : ComponentMethod × List TagReference) : Prop where
  named : IsMethod src stem e.1 m.1.name
  method : Component.method src m.1.name e.1.node = .ok m.1
  references : List.Forall₂ (Refers src binds) e.2 m.2
  known : ∀ r ∈ m.2, asks r = true → ∃ s, scopes = .ok s

theorem name_of_method {src : Bytes} {name : String} {n : Node} {m : ComponentMethod} (h : method src name n = .ok m) :
    m.name = name := by
  obtain ⟨at_, -, hm⟩ := method_eq_ok_iff.1 h
  split at hm
  · rw [hm]
  · obtain ⟨o, lead, -, rfl⟩ := hm
    rfl

/-- The result at a place, as far as it can be used. -/
def resultAt (src : Bytes) (stem : String) (scopes : Except Utf8.Fault Scopes) (asks : TagReference → Bool)
    (binds : List Nat → String → Bool) (p : Place) :
    Option (Except Failure (ComponentMethod × List (Except Failure TagReference))) :=
  (methodAt src stem binds p).map (fun m => m.map (fun (m, refs) => (m, withScopes scopes asks refs)))

/-- At a place is no component method, or one at which the survey stops, or one that it tells. -/
theorem resultAt_cases (src : Bytes) (stem : String) (scopes : Except Utf8.Fault Scopes) (asks : TagReference → Bool)
    (binds : List Nat → String → Bool) (p : Place) :
    (resultAt src stem scopes asks binds p = none ∧ listing? src stem p = none) ∨
    (∃ e, resultAt src stem scopes asks binds p = some (.error e)) ∨
    ∃ m, resultAt src stem scopes asks binds p =
        some (.ok (m, withScopes scopes asks (references src stem binds p.path p.node))) ∧
      listing? src stem p = some (p, tagsOf src stem p) ∧ IsMethod src stem p m.name ∧ method src m.name p.node = .ok m := by
  rw [resultAt, methodAt, listing?]
  cases hname : methodName? src stem p.parent p.node with
  | error f => exact .inr (.inl ⟨_, rfl⟩)
  | ok found =>
    cases found with
    | none => exact .inl ⟨rfl, rfl⟩
    | some name =>
      cases hmethod : method src name p.node with
      | error f => exact .inr (.inl ⟨f, by simp only [hmethod]; rfl⟩)
      | ok m =>
        obtain rfl := name_of_method hmethod
        exact .inr (.inr ⟨m, by simp only [hmethod]; rfl, rfl, methodName?_eq_some_iff.1 hname, hmethod⟩)

/-- **A survey of places tells of the component methods among them in order, each with its tags, up to a fault.** -/
theorem ofResults_upTo (src : Bytes) (stem : String) (scopes : Except Utf8.Fault Scopes) (asks : TagReference → Bool)
    (binds : List Nat → String → Bool) : ∀ (ps : List Place),
    ∃ seen, UpTo seen (ps.filterMap (listing? src stem)) ∧
      List.Forall₂ (Tells src stem scopes asks binds) seen
        (ofResults (ps.filterMap (resultAt src stem scopes asks binds))).methods ∧
      ((ofResults (ps.filterMap (resultAt src stem scopes asks binds))).fault = none →
        seen = ps.filterMap (listing? src stem))
  | [] => ⟨[], .nil, .nil, fun _ => rfl⟩
  | p :: ps => by
    have hrest := ofResults_upTo src stem scopes asks binds ps
    rcases resultAt_cases src stem scopes asks binds p with ⟨hresult, hlisting⟩ | ⟨e, hresult⟩ |
      ⟨m, hresult, hlisting, hnamed, hmethod⟩
    · rw [List.filterMap_cons_none hresult, List.filterMap_cons_none hlisting]
      exact hrest
    · rw [List.filterMap_cons_some hresult, ofResults]
      exact ⟨[], .nil, .nil, fun h => absurd h (Option.some_ne_none _)⟩
    · have hreads := (references_reads src stem binds p.parent p.path p.node).withScopes scopes asks
      obtain ⟨tags, hprefix, htags, hall⟩ := hreads.upToError
      have hknown : ∀ r ∈ (upToError (withScopes scopes asks (references src stem binds p.path p.node))).1,
          asks r = true → ∃ s, scopes = .ok s := fun r hr => known_of_mem_withScopes (ok_mem_of_mem_upToError hr)
      rw [List.filterMap_cons_some hresult, List.filterMap_cons_some hlisting, ofResults]
      cases hrefs : upToError (withScopes scopes asks (references src stem binds p.path p.node)) with
      | mk found fault =>
        rw [hrefs] at htags hall hknown
        cases fault with
        | some e =>
          exact ⟨[(p, tags)], .last hprefix, .cons ⟨hnamed, hmethod, htags, hknown⟩ .nil,
            fun h => absurd h (Option.some_ne_none _)⟩
        | none =>
          obtain ⟨seen, hupTo, hseen, hcomplete⟩ := hrest
          obtain rfl := hall rfl
          refine ⟨(p, tagsOf src stem p) :: seen, .cons hupTo, .cons ⟨hnamed, hmethod, htags, hknown⟩ hseen, ?_⟩
          intro hnone
          rw [hcomplete hnone]

/-- What binds at the places of a tree. -/
def bindsOf (src : Bytes) (root : Node) : List Nat → String → Bool :=
  match Scopes.ofTree src root with
  | .ok s => s.isBoundAt
  | .error _ => fun _ _ => false

theorem ofTree_eq_ofResults (src : Bytes) (stem : String) (asks : TagReference → Bool) (root : Node) :
    ofTree src stem asks root =
      ofResults ((root.places none []).filterMap (resultAt src stem (Scopes.ofTree src root) asks (bindsOf src root))) := by
  have hmap : (root.places none []).filterMap (resultAt src stem (Scopes.ofTree src root) asks (bindsOf src root)) =
      ((root.places none []).filterMap (methodAt src stem (bindsOf src root))).map
        (fun m => m.map (fun (m, refs) => (m, withScopes (Scopes.ofTree src root) asks refs))) := by
    rw [List.map_filterMap]; rfl
  rw [hmap]; rfl

/-! ## The entries of a tree -/

/-- All component methods of a tree, each with the tags whose nearest component method it is. -/
structure Attributes (src : Bytes) (stem : String) (root : Node) (all : List (Place × List Place)) : Prop where
  methods_sublist : (all.map (·.1)).Sublist (root.places none [])
  mem_methods_iff : ∀ p ∈ root.places none [], p ∈ all.map (·.1) ↔ IsMethodPlace src stem p
  tags_sublist : ∀ e ∈ all, e.2.Sublist (root.places none [])
  mem_tags_iff : ∀ e ∈ all, ∀ q ∈ root.places none [],
    q ∈ e.2 ↔ (∃ levels r, IsTag q.node levels r) ∧ IsNearest src stem root e.1 q
  existsUnique : ∀ q ∈ root.places none [], (∃ levels r, IsTag q.node levels r) →
    (∃ p ∈ root.places none [], IsMethodPlace src stem p ∧ p.path <+: q.path) → ∃! e, e ∈ all ∧ q ∈ e.2

section

variable {src : Bytes} {stem : String} {root : Node}

theorem map_fst_filterMap_listing? : ∀ (ps : List Place),
    (((ps.filterMap (listing? src stem)).map (·.1)).Sublist ps ∧
      ∀ p, p ∈ (ps.filterMap (listing? src stem)).map (·.1) ↔ p ∈ ps ∧ IsMethodPlace src stem p)
  | [] => ⟨List.nil_sublist _, by simp⟩
  | p :: ps => by
    obtain ⟨hsub, hmem⟩ := map_fst_filterMap_listing? ps
    cases hlisting : listing? src stem p with
    | none =>
      have hnot : ¬ IsMethodPlace src stem p := fun h => by rw [listing?_eq_some_iff.2 ⟨h, rfl⟩] at hlisting; cases hlisting
      rw [List.filterMap_cons_none hlisting]
      refine ⟨hsub.cons p, fun q => ?_⟩
      rw [hmem, List.mem_cons]
      exact ⟨fun h => ⟨.inr h.1, h.2⟩, fun h => ⟨h.1.resolve_left (fun e => hnot (e ▸ h.2)), h.2⟩⟩
    | some e =>
      obtain ⟨hmethod, rfl⟩ := listing?_eq_some_iff.1 hlisting
      rw [List.filterMap_cons_some hlisting, List.map_cons]
      refine ⟨hsub.cons_cons p, fun q => ?_⟩
      rw [List.mem_cons, hmem, List.mem_cons]
      exact ⟨fun h => h.elim (fun e => ⟨.inl e, e ▸ hmethod⟩) (fun h => ⟨.inr h.1, h.2⟩),
        fun h => h.1.imp id (fun hq => ⟨hq, h.2⟩)⟩

theorem mem_tagsOf_iff {p : Place} (hp : p ∈ root.places none []) (hmethod : IsMethodPlace src stem p) (q : Place) :
    q ∈ tagsOf src stem p ↔
      q ∈ root.places none [] ∧ (∃ levels r, IsTag q.node levels r) ∧ IsNearest src stem root p q := by
  rw [tagsOf, List.mem_filter, mem_ownPlaces_iff_nearest hp hmethod, holdsTag, isSome_tagRoot?_iff, and_assoc]
  exact and_congr_right (fun _ => And.comm)

/-- **The component methods of a tree with their own tags are all of them, each tag under its nearest.** -/
theorem attributes (src : Bytes) (stem : String) (root : Node) :
    Attributes src stem root ((root.places none []).filterMap (listing? src stem)) := by
  obtain ⟨hsub, hmem⟩ := @map_fst_filterMap_listing? src stem (root.places none [])
  have hlisting : ∀ e ∈ (root.places none []).filterMap (listing? src stem),
      e.1 ∈ root.places none [] ∧ IsMethodPlace src stem e.1 ∧ e.2 = tagsOf src stem e.1 := by
    intro e he
    obtain ⟨p, hp, hsome⟩ := List.mem_filterMap.1 he
    obtain ⟨hmethod, rfl⟩ := listing?_eq_some_iff.1 hsome
    exact ⟨hp, hmethod, rfl⟩
  refine ⟨hsub, fun p hp => (hmem p).trans (and_iff_right hp), ?_, ?_, ?_⟩
  · intro e he
    obtain ⟨hp, -, htags⟩ := hlisting e he
    have hbelow := places_sublist e.1.path (Node.placeAt?_of_mem_places hp)
    rw [htags]
    exact (List.filter_sublist.trans (ownPlaces_sublist src stem _ _ _)).trans hbelow
  · intro e he q hq
    obtain ⟨hp, hmethod, htags⟩ := hlisting e he
    rw [htags, mem_tagsOf_iff hp hmethod, and_iff_right hq]
  · rintro q hq htag ⟨p, hp, hmethod, haround⟩
    obtain ⟨p', hnearest⟩ := exists_nearest hp hmethod haround
    refine ⟨(p', tagsOf src stem p'), ⟨?_, ?_⟩, ?_⟩
    · exact List.mem_filterMap.2 ⟨p', hnearest.place, listing?_eq_some_iff.2 ⟨hnearest.method, rfl⟩⟩
    · exact (mem_tagsOf_iff hnearest.place hnearest.method q).2 ⟨hq, htag, hnearest⟩
    · rintro ⟨p'', tags⟩ ⟨he, hin⟩
      obtain ⟨hp'', hmethod'', htags⟩ := hlisting _ he
      rw [htags, mem_tagsOf_iff hp'' hmethod''] at hin
      obtain rfl := hin.2.2.unique hnearest
      exact Prod.ext rfl htags

end

/-! ## References and tags -/

section

variable {src : Bytes} {stem : String} {root : Node} {asks : TagReference → Bool}

theorem exists_mem_of_forall₂ {α β : Type} {R : α → β → Prop} {as : List α} {bs : List β} (h : List.Forall₂ R as bs)
    {b : β} (hb : b ∈ bs) : ∃ a ∈ as, R a b := by
  induction h with
  | nil => cases hb
  | @cons a b' as bs hab _ ih =>
    rcases List.mem_cons.1 hb with rfl | hb
    · exact ⟨a, List.mem_cons_self, hab⟩
    · obtain ⟨a', ha', hab'⟩ := ih hb
      exact ⟨a', List.mem_cons_of_mem _ ha', hab'⟩

/-- Every method of a survey stands at a place of the tree. -/
theorem exists_place_of_mem_methods {m : ComponentMethod × List TagReference} (hm : m ∈ (ofTree src stem asks root).methods) :
    ∃ p ∈ root.places none [], method src m.1.name p.node = .ok m.1 := by
  rw [ofTree_eq_ofResults] at hm
  obtain ⟨seen, hupTo, htells, -⟩ := ofResults_upTo src stem (Scopes.ofTree src root) asks (bindsOf src root)
    (root.places none [])
  obtain ⟨e, he, htell⟩ := exists_mem_of_forall₂ htells hm
  have hattributes := attributes src stem root
  have hfst : e.1 ∈ ((root.places none []).filterMap (listing? src stem)).map (·.1) := hupTo.map_fst_subset he
  exact ⟨e.1, hattributes.methods_sublist.subset hfst, htell.method⟩

variable (hfault : (ofTree src stem asks root).fault = none)

include hfault

theorem tells_of_fault_eq_none : List.Forall₂ (Tells src stem (Scopes.ofTree src root) asks (bindsOf src root))
    ((root.places none []).filterMap (listing? src stem)) (ofTree src stem asks root).methods := by
  rw [ofTree_eq_ofResults] at hfault ⊢
  obtain ⟨seen, -, htells, hall⟩ := ofResults_upTo src stem (Scopes.ofTree src root) asks (bindsOf src root)
    (root.places none [])
  rw [hall hfault] at htells
  exact htells

/-- **A reference is that of a tag under its nearest method.** -/
theorem exists_nearest_of_mem {m : ComponentMethod × List TagReference} (hm : m ∈ (ofTree src stem asks root).methods)
    {r : TagReference} (hr : r ∈ m.2) :
    ∃ p q, q ∈ root.places none [] ∧ IsNearest src stem root p q ∧ Refers src (bindsOf src root) q r ∧
      (asks r = true → ∃ scopes, Scopes.ofTree src root = .ok scopes) := by
  have hattributes := attributes src stem root
  obtain ⟨e, he, htell⟩ := exists_mem_of_forall₂ (tells_of_fault_eq_none hfault) hm
  obtain ⟨q, hq, hrefers⟩ := exists_mem_of_forall₂ htell.references hr
  have hplace := (hattributes.tags_sublist e he).subset hq
  exact ⟨e.1, q, hplace, ((hattributes.mem_tags_iff e he q hplace).1 hq).2, hrefers, htell.known r hr⟩

/-- **A tag under its nearest method has a reference.** -/
theorem exists_mem_of_nearest {p q : Place} (hq : q ∈ root.places none []) (hnearest : IsNearest src stem root p q)
    {levels : Nat} {r : Node} (htag : IsTag q.node levels r) :
    ∃ m ∈ (ofTree src stem asks root).methods, ∃ r ∈ m.2, Refers src (bindsOf src root) q r := by
  have hlisting : (p, tagsOf src stem p) ∈ (root.places none []).filterMap (listing? src stem) :=
    List.mem_filterMap.2 ⟨p, hnearest.place, listing?_eq_some_iff.2 ⟨hnearest.method, rfl⟩⟩
  have hin : q ∈ tagsOf src stem p :=
    (mem_tagsOf_iff hnearest.place hnearest.method q).2 ⟨hq, ⟨levels, r, htag⟩, hnearest⟩
  obtain ⟨m, hm, htell⟩ := exists_mem_of_forall₂ (tells_of_fault_eq_none hfault).flip hlisting
  obtain ⟨ref, href, hrefers⟩ := exists_mem_of_forall₂ htell.references.flip hin
  exact ⟨m, hm, ref, href, hrefers⟩

end

/-! ## Where there is no fault -/

section

variable {src : Bytes} {stem : String} {root : Node}

/-- The text of a node and the position where it begins can be read. -/
def Located (src : Bytes) (n : Node) : Prop := Lexical.Readable src n ∧ ∃ at_, Position.ofOffset src n.start = .ok at_

theorem mem_preorder_of_rootsAt {n r : Node} {k : Nat} (h : n.RootsAt k r) : r ∈ n.preorder := by
  induction h with
  | here => exact Node.self_mem_preorder _
  | object _ hobject _ ih => exact Node.preorder_trans _ (Node.mem_preorder_of_child? hobject) ih
  | first _ _ hfirst _ ih =>
    exact Node.preorder_trans _ (Node.mem_preorder_of_mem_namedChildren (List.mem_of_head? hfirst)) ih

theorem exists_tagReferences {n : Node} (h : ∀ m ∈ n.preorder, Located src m) (binds : List Nat → String → Bool)
    (path : List Nat) : ∃ rs : List TagReference, tagReferences src binds path n = rs.map .ok := by
  unfold tagReferences
  cases hroot : tagRoot? n with
  | none => exact ⟨[], rfl⟩
  | some e =>
    obtain ⟨-, hname, ⟨k, hk⟩, -⟩ := tagRoot?_eq_some_iff.1 hroot
    have hbelow : e.2 ∈ n.preorder := Node.preorder_trans _ (Node.mem_preorder_of_child? hname) (mem_preorder_of_rootsAt hk)
    obtain ⟨⟨text, htext⟩, at_, hat⟩ := h e.2 hbelow
    refine ⟨[⟨text, Node.memberKinds.contains e.1.kind, at_.line, at_.column, binds path text⟩], ?_⟩
    simp only [hat, htext]
    rfl

theorem exists_methodName? {n : Node} (h : ∀ m ∈ n.preorder, Located src m) (stem : String) (parent : Option String) :
    ∃ found, methodName? src stem parent n = .ok found := by
  unfold methodName?
  split
  · split
    · next m hm =>
      obtain ⟨⟨text, htext⟩, -⟩ := h m (Node.mem_preorder_of_child? hm)
      rw [htext]
      split
      · exact ⟨_, rfl⟩
      · exact ⟨_, rfl⟩
    · exact ⟨_, rfl⟩
  · exact ⟨_, rfl⟩

mutual

theorem exists_references (src : Bytes) (stem : String) (binds : List Nat → String → Bool) : ∀ (path : List Nat) (n : Node),
    (∀ m ∈ n.preorder, Located src m) → ∃ rs : List TagReference, references src stem binds path n = rs.map .ok
  | path, .mk l cs, h => by
    obtain ⟨rs, hrs⟩ := exists_tagReferences h binds path
    obtain ⟨rs', hrs'⟩ := exists_referencesIn src stem binds l.kind path 0 cs
      (fun m hm => h m (by rw [Node.preorder]; exact List.mem_cons_of_mem _ hm))
    exact ⟨rs ++ rs', by rw [references, hrs, hrs', List.map_append]⟩

theorem exists_referencesIn (src : Bytes) (stem : String) (binds : List Nat → String → Bool) : ∀ (parent : String)
    (path : List Nat) (i : Nat) (cs : List Node), (∀ m ∈ Node.preorderAll cs, Located src m) →
    ∃ rs : List TagReference, referencesIn src stem binds parent path i cs = rs.map .ok
  | parent, path, i, [], _ => ⟨[], by rw [referencesIn, List.map_nil]⟩
  | parent, path, i, c :: cs, h => by
    rw [Node.preorderAll] at h
    have hhere : ∀ m ∈ c.preorder, Located src m := fun m hm => h m (List.mem_append_left _ hm)
    obtain ⟨rs, hrs⟩ := exists_references src stem binds (path ++ [i]) c hhere
    obtain ⟨rs', hrs'⟩ := exists_referencesIn src stem binds parent path (i + 1) cs
      (fun m hm => h m (List.mem_append_right _ hm))
    obtain ⟨found, hfound⟩ := exists_methodName? hhere stem (some parent)
    rw [referencesIn, hfound, hrs']
    cases found with
    | none => exact ⟨rs ++ rs', by rw [List.map_append]; exact congrArg (· ++ _) hrs⟩
    | some name => exact ⟨rs', rfl⟩

end

theorem exists_method {n : Node} (hat : ∃ at_, Position.ofOffset src n.start = .ok at_)
    (hbody : ∀ body, n.child? "body" = some body → body.children ≠ []) (name : String) :
    ∃ m, method src name n = .ok m := by
  obtain ⟨at_, hat⟩ := hat
  cases hb : n.child? "body" with
  | none => exact ⟨_, method_eq_ok_iff.2 ⟨at_, hat, by rw [hb]⟩⟩
  | some body =>
    obtain ⟨start, hstart⟩ := exists_bodyStart_iff.2 (hbody body hb)
    exact ⟨_, method_eq_ok_iff.2 ⟨at_, hat, by rw [hb]; exact ⟨start.1, start.2, hstart, rfl⟩⟩⟩

theorem ofResults_fault_eq_none : ∀ (rs : List (Except Failure (ComponentMethod × List (Except Failure TagReference)))),
    (∀ r ∈ rs, ∃ a, found a = r) → (ofResults rs).fault = none
  | [], _ => rfl
  | r :: rs, h => by
    obtain ⟨⟨m, refs⟩, rfl⟩ := h r List.mem_cons_self
    rw [found, ofResults, upToError_map_ok]
    exact ofResults_fault_eq_none rs (fun r hr => h r (List.mem_cons_of_mem _ hr))

/-- **Where every node can be read and located and no body is without a child, a survey has no fault.** -/
theorem fault_eq_none (hlocated : ∀ n ∈ root.preorder, Located src n)
    (hbody : ∀ p ∈ root.places none [], IsMethodPlace src stem p → ∀ body, p.node.child? "body" = some body →
      body.children ≠ []) (asks : TagReference → Bool) : (ofTree src stem asks root).fault = none := by
  obtain ⟨scopes, hscopes⟩ := Lexical.exists_ofTree (fun n hn => (hlocated n hn).1)
  have hfound : ∀ p ∈ root.places none [], ∀ r, methodAt src stem scopes.isBoundAt p = some r → ∃ a, found a = r := by
    intro p hp r hr
    have hin : p.node ∈ root.preorder := Node.mem_preorder_of_mem_places hp
    have hbelow : ∀ n ∈ p.node.preorder, Located src n := fun n hn => hlocated n (Node.preorder_trans _ hin hn)
    obtain ⟨name?, hname⟩ := exists_methodName? hbelow stem p.parent
    obtain ⟨refs, hrefs⟩ := exists_references src stem scopes.isBoundAt p.path p.node hbelow
    unfold methodAt at hr
    rw [hname] at hr
    cases name? with
    | none => cases hr
    | some name =>
      obtain ⟨m, hm⟩ := exists_method (hlocated _ hin).2 (hbody p hp ⟨name, methodName?_eq_some_iff.1 hname⟩) name
      simp only [hm, hrefs, Except.map, Option.some.injEq] at hr
      exact ⟨(m, refs), hr⟩
  rw [ofTree_eq hscopes]
  refine ofResults_fault_eq_none _ (fun r hr => ?_)
  obtain ⟨p, hp, hsome⟩ := List.mem_filterMap.1 hr
  exact hfound p hp r hsome

end

/-- **Every tag belongs to just one method.**  There is a list of all component methods of a tree in the order of the tree,
each with the tags in it, in the order of the tree, whose nearest component method it is; each tag in a component method
stands in just one entry.  A survey tells of this list: of all of it without a fault, else of what comes before the fault.
There is none where every node can be read and located and no body of a component method is without a child. -/
theorem tags_attributed (src : Bytes) (stem : String) (asks : TagReference → Bool) (root : Node) :
    (root.places none []).map (·.node) = root.preorder ∧
    (root.places none []).Pairwise (fun p q => p.path < q.path) ∧
    (∃ all, Attributes src stem root all ∧
      ∃ seen, UpTo seen all ∧
        List.Forall₂ (Tells src stem (Scopes.ofTree src root) asks (bindsOf src root)) seen
          (ofTree src stem asks root).methods ∧
        ((ofTree src stem asks root).fault = none → seen = all)) ∧
    ((∀ n ∈ root.preorder, Located src n) →
      (∀ p ∈ root.places none [], IsMethodPlace src stem p → ∀ body, p.node.child? "body" = some body →
        body.children ≠ []) →
      (ofTree src stem asks root).fault = none) := by
  refine ⟨Node.map_node_places none [] root, Node.places_pairwise none [] root, ?_, ?_⟩
  · rw [ofTree_eq_ofResults]
    exact ⟨_, attributes src stem root, ofResults_upTo src stem _ asks _ _⟩
  · intro hlocated hbody
    exact fault_eq_none hlocated hbody asks

end Survey
end TagAlias
