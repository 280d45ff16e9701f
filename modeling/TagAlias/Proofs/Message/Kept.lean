import TagAlias.Message.Bus
/-!
# Texts that are kept

A language that has been read is kept, so an address that has once been looked up has its text at hand from then on,
whatever has become of the files (`get_of_has`, `has_of_get`).  A message that a bus has sent can be sent again by the bus
that is left (`takes_of_send`, `Takes.exists_send`).
-/
namespace TagAlias

namespace Catalog

variable {c c' c₁ : Catalog} {fs : Files} {id : Str}

/-- What is known of languages stays known. -/
structure Extends (c c' : Catalog) : Prop where
  language : c'.language = c.language
  defaultLanguage : c'.defaultLanguage = c.defaultLanguage
  known : ∀ l ts, c.known.lookup l = some ts → c'.known.lookup l = some ts

theorem Extends.refl (c : Catalog) : c.Extends c := ⟨rfl, rfl, fun _ _ h => h⟩

theorem Extends.trans (h : c.Extends c₁) (h' : c₁.Extends c') : c.Extends c' :=
  ⟨h'.language.trans h.language, h'.defaultLanguage.trans h.defaultLanguage, fun l ts hl => h'.known l ts (h.known l ts hl)⟩

theorem Extends.target (h : c.Extends c') : c'.target none = c.target none := by
  unfold Catalog.target
  rw [h.language, h.defaultLanguage]

/-- The text of an address is at hand, in languages that are known. -/
inductive Has (c : Catalog) (id : Str) : Str → Prop where
  | own {ts : Texts} {text : Str} (hts : c.known.lookup (c.target none) = some ts) (h : ts.lookup id = some text) :
      Has c id text
  | address {ts : Texts} (hts : c.known.lookup (c.target none) = some ts) (h : ts.lookup id = none)
      (hdefault : c.target none = c.defaultLanguage) : Has c id id
  | fallback {ts ds : Texts} (hts : c.known.lookup (c.target none) = some ts) (h : ts.lookup id = none)
      (hdefault : c.target none ≠ c.defaultLanguage) (hds : c.known.lookup c.defaultLanguage = some ds) :
      Has c id ((ds.lookup id).getD id)

theorem Has.mono {text : Str} (h : c.Has id text) (hc : c.Extends c') : c'.Has id text := by
  have htarget : ∀ {ts}, c.known.lookup (c.target none) = some ts → c'.known.lookup (c'.target none) = some ts :=
    fun {ts} hts => hc.target ▸ hc.known _ ts hts
  cases h with
  | own hts h => exact .own (htarget hts) h
  | address hts h hdefault => exact .address (htarget hts) h (by rw [hc.target, hc.defaultLanguage, hdefault])
  | fallback hts h hdefault hds =>
    exact .fallback (htarget hts) h (by rwa [hc.target, hc.defaultLanguage]) (hc.defaultLanguage ▸ hc.known _ _ hds)

theorem texts_of_known {l : Str} {ts : Texts} (h : c.known.lookup l = some ts) : c.texts fs l = .ok (ts, c) := by
  unfold texts
  rw [h]

/-- A language that has been asked for is known. -/
theorem known_of_texts {l : Str} {ts : Texts} (h : c.texts fs l = .ok (ts, c')) :
    c.Extends c' ∧ c'.known.lookup l = some ts := by
  unfold texts at h
  split at h
  · next ts' hts =>
    cases h
    exact ⟨.refl c, hts⟩
  · next hnone =>
    cases hload : c.load fs l with
    | error e => rw [hload] at h; cases h
    | ok ts' =>
      rw [hload] at h
      cases h
      refine ⟨⟨rfl, rfl, fun l' ts' hl' => ?_⟩, by simp⟩
      have hne : l' ≠ l := fun heq => by rw [heq, hnone] at hl'; cases hl'
      rw [List.lookup_cons, beq_false_of_ne hne]
      exact hl'

/-- **What has been looked up is at hand.** -/
theorem has_of_get {text : Str} (h : c.get fs id none = (c', .ok text)) : c.Extends c' ∧ c'.Has id text := by
  unfold get at h
  dsimp only at h
  split at h
  · cases h
  · next ts c₁ htexts =>
    obtain ⟨hextends, hknown⟩ := known_of_texts htexts
    rw [← hextends.target] at hknown
    split at h
    · next t ht =>
      cases h
      exact ⟨hextends, .own hknown ht⟩
    · next hnone =>
      split at h
      · next heq =>
        cases h
        exact ⟨hextends, .address hknown hnone (by rw [hextends.target, eq_of_beq heq])⟩
      · next hne =>
        split at h
        · cases h
        · next ds c₂ hdefault =>
          cases h
          obtain ⟨hextends', hknown'⟩ := known_of_texts hdefault
          have htarget : c₁.target none ≠ c₁.defaultLanguage := by
            rw [hextends.target]
            exact fun heq => hne (beq_iff_eq.2 heq)
          refine ⟨hextends.trans hextends', .fallback (hextends'.target ▸ hextends'.known _ _ hknown) hnone ?_ ?_⟩
          · rwa [hextends'.target, hextends'.defaultLanguage]
          · rwa [hextends'.defaultLanguage]

/-- **What is at hand is found without the files.** -/
theorem get_of_has {text : Str} (h : c.Has id text) (fs : Files) : c.get fs id none = (c, .ok text) := by
  unfold get
  dsimp only
  cases h with
  | own hts h =>
    rw [texts_of_known hts]
    dsimp only
    rw [h]
  | address hts h hdefault =>
    rw [texts_of_known hts]
    dsimp only
    rw [h]
    dsimp only
    rw [if_pos (beq_iff_eq.2 hdefault)]
  | fallback hts h hdefault hds =>
    rw [texts_of_known hts]
    dsimp only
    rw [h]
    dsimp only
    rw [if_neg (fun heq => hdefault (eq_of_beq heq)), texts_of_known hds]

end Catalog

namespace Bus

variable {α : Type} {b b' b₁ : Bus α} {m : Message α}

/-- The same listens, and nothing of the catalog is forgotten. -/
structure Extends (b b' : Bus α) : Prop where
  receiver : b'.receiver = b.receiver
  catalog : b.catalog.Extends b'.catalog

theorem Extends.refl (b : Bus α) : b.Extends b := ⟨rfl, .refl _⟩

theorem Extends.trans (h : b.Extends b₁) (h' : b₁.Extends b') : b.Extends b' :=
  ⟨h'.receiver.trans h.receiver, h.catalog.trans h'.catalog⟩

variable [Template.Object α]

/-- A message can be sent whatever has become of the files. -/
def Takes (b : Bus α) (m : Message α) : Prop :=
  b.receiver = .texts → ∃ template text, b.catalog.Has m.id template ∧ m.textFrom template = .ok text

theorem Takes.mono (h : b.Takes m) (hb : b.Extends b') : b'.Takes m := fun hreceiver =>
  have ⟨template, text, hhas, htext⟩ := h (hb.receiver ▸ hreceiver)
  ⟨template, text, hhas.mono hb.catalog, htext⟩

/-- **A message that has been sent can be sent again.** -/
theorem takes_of_send {fs : Files} (h : b.send fs m = (b', .ok ())) : b.Extends b' ∧ b'.Takes m := by
  unfold send at h
  split at h
  · next hreceiver =>
    cases h
    exact ⟨.refl b, fun htexts => by rw [hreceiver] at htexts; cases htexts⟩
  · next hreceiver =>
    cases h
    exact ⟨⟨rfl, .refl _⟩, fun htexts => by rw [show b.receiver = .texts from htexts] at hreceiver; cases hreceiver⟩
  · split at h
    · cases h
    · next c template hget =>
      obtain ⟨hextends, hhas⟩ := Catalog.has_of_get hget
      split at h
      · cases h
      · next text htext =>
        cases h
        exact ⟨⟨rfl, hextends⟩, fun _ => ⟨template, text, hhas, htext⟩⟩

theorem Takes.exists_send (h : b.Takes m) (fs : Files) : ∃ b', b.send fs m = (b', .ok ()) := by
  unfold send
  cases hreceiver : b.receiver with
  | absent => exact ⟨_, rfl⟩
  | messages => exact ⟨_, rfl⟩
  | texts =>
    obtain ⟨template, text, hhas, htext⟩ := h hreceiver
    rw [Catalog.get_of_has hhas fs]
    dsimp only
    rw [htext]
    exact ⟨_, rfl⟩

end Bus
end TagAlias
