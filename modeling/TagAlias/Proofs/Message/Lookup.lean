import TagAlias.Message.Catalog
/-!
# What a catalog answers

A catalog answers as if nothing were kept: what has been asked before does not matter (`get_of_reads`).  The answer is the
text of the first root that has one in the language, else in the default language, else the address itself; in a root the
last file that has the address counts (`rootText?_directory_iff`), and files that are no JSON are left out.  Only a file that
is JSON but no table keeps a language from being read, and with it every answer that needs the language
(`load_of_spoiled`, `get_after`).
-/
namespace TagAlias
namespace Catalog

/-! ## Files of texts -/

def valueOf? (content : Bytes) : Option Json :=
  match Utf8.decode content with
  | .ok cs => Json.read cs
  | .error _ => none

/-- The texts of a file that can be used. -/
def tableOf? (content : Bytes) : Option Texts :=
  match valueOf? content with
  | some (.table es) => some (es.map (fun e => (e.1, e.2.display)))
  | _ => none

/-- JSON that is no table. -/
def Spoils (content : Bytes) : Prop := ∃ v, valueOf? content = some v ∧ ∀ es, v ≠ .table es

theorem textsOf_eq (content : Bytes) : textsOf content = match valueOf? content with
    | none => .ok []
    | some (.table es) => .ok (es.map (fun e => (e.1, e.2.display)))
    | some _ => .error .noSuchPart := by
  unfold textsOf valueOf?
  cases Utf8.decode content <;> rfl

theorem textsOf_of_spoils {content : Bytes} (h : Spoils content) : textsOf content = .error .noSuchPart := by
  obtain ⟨v, hv, hnot⟩ := h
  rw [textsOf_eq, hv]
  cases v with
  | table es => exact absurd rfl (hnot es)
  | _ => rfl

theorem textsOf_of_not_spoils {content : Bytes} (h : ¬ Spoils content) :
    textsOf content = .ok ((tableOf? content).getD []) := by
  rw [textsOf_eq, tableOf?]
  cases hv : valueOf? content with
  | none => rfl
  | some v =>
    cases v with
    | table es => rfl
    | _ => exact absurd ⟨_, hv, fun es heq => by cases heq⟩ h

@[simp] theorem languageDir_ofString (p : Path) (l : String) :
    languageDir p (Str.ofString l) = some (p ++ Path.ofString l) := by
  rw [languageDir, Str.toString?_ofString]
  rfl

def fileNames (fs : Files) (dir : Path) : List String :=
  if fs.isDirectory dir then (fs.list dir).filter isCatalogFile else []

def fileTexts (fs : Files) (dir : Path) (name : String) : Texts :=
  ((fs.read (dir.child name)).toOption.bind tableOf?).getD []

def fileText? (fs : Files) (dir : Path) (id : Str) (name : String) : Option Str := (fileTexts fs dir name).lookup id

/-- The text of an address in a root: the last file that has one counts. -/
def rootText? (fs : Files) (language id : Str) : CatalogRoot → Option Str
  | .packaged => if language == Packaged.language then Packaged.templates.lookup id else none
  | .directory p => (languageDir p language).bind (fun dir => (fileNames fs dir).reverse.findSome? (fileText? fs dir id))

/-- The text of an address in a language: the first root that has one counts. -/
def search (c : Catalog) (fs : Files) (language id : Str) : Option Str :=
  c.roots.findSome? (rootText? fs language id)

/-- The file of a name is JSON but no table. -/
def SpoiledBy (fs : Files) (dir : Path) (name : String) : Prop :=
  ∃ content, fs.read (dir.child name) = .ok content ∧ Spoils content

/-- A root has a file for the language that is JSON but no table. -/
def SpoiledIn (fs : Files) (language : Str) : CatalogRoot → Prop
  | .packaged => False
  | .directory p => ∃ dir, languageDir p language = some dir ∧ ∃ name ∈ fileNames fs dir, SpoiledBy fs dir name

/-- Some root has a file for the language that is JSON but no table. -/
def Spoiled (c : Catalog) (fs : Files) (language : Str) : Prop := ∃ r ∈ c.roots, SpoiledIn fs language r

/-! ## The last file counts -/

theorem pairwise_fileNames (fs : Files) (dir : Path) : (fileNames fs dir).Pairwise (fun a b => ¬ b < a) := by
  have hlist : (fs.list dir).Pairwise (fun a b => ¬ b < a) := by
    unfold Files.list
    cases fs.locate dir with
    | error e => exact .nil
    | ok place =>
      have htrans : ∀ a b c : String, !(b < a) → !(c < b) → !(c < a) := by
        intro a b c hab hbc
        simp only [Bool.not_eq_true', decide_eq_false_iff_not, String.not_lt] at hab hbc ⊢
        exact String.le_trans hab hbc
      have htotal : ∀ a b : String, !(b < a) || !(a < b) := by
        intro a b
        simp only [Bool.or_eq_true, Bool.not_eq_true', decide_eq_false_iff_not, String.not_lt]
        exact String.le_total a b
      refine (List.pairwise_mergeSort htrans htotal _).imp (fun h => ?_)
      simpa only [Bool.not_eq_true', decide_eq_false_iff_not] using h
  unfold fileNames
  split
  · exact hlist.filter _
  · exact .nil

section

variable {β : Type} {f : String → Option β} {names : List String} (h : names.Pairwise (fun a b => ¬ b < a)) {t : β}

include h

theorem exists_last (hfound : names.reverse.findSome? f = some t) :
    ∃ name ∈ names, f name = some t ∧ ∀ later ∈ names, name < later → f later = none := by
  obtain ⟨back, name, front, hsplit, hname, hback⟩ := List.findSome?_eq_some_iff.1 hfound
  have hnames : names = front.reverse ++ name :: back.reverse := by
    rw [← List.reverse_reverse names, hsplit]
    simp
  rw [hnames] at h ⊢
  obtain ⟨-, -, hacross⟩ := List.pairwise_append.1 h
  refine ⟨name, by simp, hname, fun later hlater hlt => ?_⟩
  rcases List.mem_append.1 hlater with hfront | hlater
  · exact absurd hlt (hacross later hfront name List.mem_cons_self)
  · rcases List.mem_cons.1 hlater with rfl | hlater
    · exact absurd hlt (String.lt_irrefl _)
    · exact hback later (List.mem_reverse.1 hlater)

/-- Searching names from the last to the first finds the last. -/
theorem findSome?_reverse_eq_some_iff : names.reverse.findSome? f = some t ↔
    ∃ name ∈ names, f name = some t ∧ ∀ later ∈ names, name < later → f later = none := by
  refine ⟨exists_last h, ?_⟩
  rintro ⟨name, hmem, hname, hlater⟩
  have hsome : (names.reverse.findSome? f).isSome = true :=
    List.findSome?_isSome_iff.2 ⟨name, List.mem_reverse.2 hmem, by rw [hname]; rfl⟩
  obtain ⟨t', ht'⟩ := Option.isSome_iff_exists.1 hsome
  obtain ⟨name', hmem', hname', hlater'⟩ := exists_last h ht'
  have hsame : name' = name := by
    refine String.le_antisymm (String.not_lt.1 (fun hlt => ?_)) (String.not_lt.1 (fun hlt => ?_))
    · rw [hlater name' hmem' hlt] at hname'
      cases hname'
    · rw [hlater' name hmem hlt] at hname
      cases hname
  subst hsame
  rw [ht', ← hname', hname]

end

/-- **In a root the last file in order of names that has the address counts.** -/
theorem rootText?_directory_iff {fs : Files} {language id t : Str} {p : Path} :
    rootText? fs language id (.directory p) = some t ↔ ∃ dir, languageDir p language = some dir ∧
      ∃ name ∈ fileNames fs dir, fileText? fs dir id name = some t ∧
        ∀ later ∈ fileNames fs dir, name < later → fileText? fs dir id later = none := by
  rw [rootText?, Option.bind_eq_some_iff]
  simp only [findSome?_reverse_eq_some_iff (pairwise_fileNames fs _)]

/-! ## Reading a language -/

section

variable {α : Type} {f : α → Except Refusal Texts}

/-- Texts laid over each other, the later ones on top. -/
theorem foldlM_over {g : α → Texts} : ∀ {as : List α}, (∀ a ∈ as, f a = .ok (g a)) → ∀ known : Texts,
    as.foldlM (fun known a => (f a).map (· ++ known)) known = .ok (as.reverse.flatMap g ++ known)
  | [], _, known => rfl
  | a :: as, h, known => by
    have hrest := foldlM_over (fun b hb => h b (List.mem_cons_of_mem _ hb)) (g a ++ known)
    rw [List.foldlM_cons, h a List.mem_cons_self]
    simpa [Except.map, bind, Except.bind] using hrest

theorem foldlM_over_error {e : Refusal} : ∀ {as : List α}, (∀ a ∈ as, f a = .error e ∨ ∃ ts, f a = .ok ts) →
    (∃ a ∈ as, f a = .error e) → ∀ known : Texts, as.foldlM (fun known a => (f a).map (· ++ known)) known = .error e
  | [], _, hbad, known => by
    obtain ⟨a, ha, -⟩ := hbad
    cases ha
  | a :: as, h, ⟨b, hb, hbad⟩, known => by
    rw [List.foldlM_cons]
    rcases h a List.mem_cons_self with ha | ⟨ts, ha⟩
    · rw [ha]; rfl
    · rw [ha]
      have hrest : ∃ b ∈ as, f b = .error e := by
        rcases List.mem_cons.1 hb with rfl | hb
        · rw [ha] at hbad; cases hbad
        · exact ⟨b, hb, hbad⟩
      exact foldlM_over_error (fun c hc => h c (List.mem_cons_of_mem _ hc)) hrest (ts ++ known)

end

theorem lookup_flatMap {α : Type} (g : α → Texts) (id : Str) (as : List α) :
    (as.flatMap g).lookup id = as.findSome? (fun a => (g a).lookup id) := by
  induction as with
  | nil => rfl
  | cons a as ih => rw [List.flatMap_cons, List.lookup_append, ih, List.findSome?_cons]; cases (g a).lookup id <;> rfl

/-- The texts of a language in a root that is not spoiled. -/
def textsIn (fs : Files) (language : Str) : CatalogRoot → Texts
  | .packaged => if language == Packaged.language then Packaged.templates else []
  | .directory p => (languageDir p language).elim [] (fun dir => (fileNames fs dir).reverse.flatMap (fileTexts fs dir))

variable {c c' : Catalog} {fs : Files}

theorem lookup_textsIn (language id : Str) (r : CatalogRoot) :
    (textsIn fs language r).lookup id = rootText? fs language id r := by
  cases r with
  | packaged => rw [textsIn, rootText?]; split <;> rfl
  | directory p =>
    rw [textsIn, rootText?]
    cases languageDir p language with
    | none => rfl
    | some dir => exact lookup_flatMap _ id _

/-- What comes of reading the file of a name.  A file that cannot be opened does not count. -/
def readFile (fs : Files) (dir : Path) (name : String) : Except Refusal Texts :=
  match fs.read (dir.child name) with
  | .ok content => textsOf content
  | .error _ => .ok []

theorem readFile_of_spoiled {dir : Path} {name : String} (h : SpoiledBy fs dir name) :
    readFile fs dir name = .error .noSuchPart := by
  obtain ⟨content, hread, hspoils⟩ := h
  rw [readFile, hread]
  exact textsOf_of_spoils hspoils

theorem readFile_of_not_spoiled {dir : Path} {name : String} (h : ¬ SpoiledBy fs dir name) :
    readFile fs dir name = .ok (fileTexts fs dir name) := by
  rw [readFile, fileTexts]
  cases hread : fs.read (dir.child name) with
  | error e => rfl
  | ok content => exact textsOf_of_not_spoils (fun hspoils => h ⟨content, hread, hspoils⟩)

theorem rootTexts_directory {language : Str} {p dir : Path} (h : languageDir p language = some dir) :
    rootTexts fs language (.directory p) =
      (fileNames fs dir).foldlM (fun known name => (readFile fs dir name).map (· ++ known)) [] := by
  unfold rootTexts fileNames
  simp only [h]
  cases fs.isDirectory dir with
  | false => rfl
  | true =>
    refine congrArg (fun step => List.foldlM step [] ((fs.list dir).filter isCatalogFile)) ?_
    funext known name
    rw [readFile]
    cases fs.read (dir.child name) <;> rfl

theorem rootTexts_of_spoiled {language : Str} : ∀ {r : CatalogRoot}, SpoiledIn fs language r →
    rootTexts fs language r = .error .noSuchPart
  | .directory p, ⟨dir, hdir, name, hname, hspoiled⟩ => by
    rw [rootTexts_directory hdir]
    refine foldlM_over_error (fun name' _ => ?_) ⟨name, hname, readFile_of_spoiled hspoiled⟩ []
    by_cases h : SpoiledBy fs dir name'
    · exact .inl (readFile_of_spoiled h)
    · exact .inr ⟨_, readFile_of_not_spoiled h⟩

theorem rootTexts_of_not_spoiled {language : Str} : ∀ {r : CatalogRoot}, ¬ SpoiledIn fs language r →
    rootTexts fs language r = .ok (textsIn fs language r)
  | .packaged, _ => rfl
  | .directory p, h => by
    rw [textsIn]
    cases hdir : languageDir p language with
    | none => rw [rootTexts, hdir]; rfl
    | some dir =>
      rw [rootTexts_directory hdir,
        foldlM_over (fun name hname => readFile_of_not_spoiled (fun hspoiled => h ⟨dir, hdir, name, hname, hspoiled⟩)) [],
        List.append_nil]
      rfl

/-- **A file that is JSON but no table spoils its language.** -/
theorem load_of_spoiled {language : Str} (h : c.Spoiled fs language) : c.load fs language = .error .noSuchPart := by
  obtain ⟨r, hr, hspoiled⟩ := h
  refine foldlM_over_error (fun r' _ => ?_) ⟨r, List.mem_reverse.2 hr, rootTexts_of_spoiled hspoiled⟩ []
  by_cases h' : SpoiledIn fs language r'
  · exact .inl (rootTexts_of_spoiled h')
  · exact .inr ⟨_, rootTexts_of_not_spoiled h'⟩

/-- **Any other language is read, and its texts are those that a search finds.** -/
theorem load_of_not_spoiled {language : Str} (h : ¬ c.Spoiled fs language) :
    ∃ ts, c.load fs language = .ok ts ∧ ∀ id, ts.lookup id = c.search fs language id := by
  have hread : ∀ r ∈ c.roots.reverse, rootTexts fs language r = .ok (textsIn fs language r) :=
    fun r hr => rootTexts_of_not_spoiled (fun hspoiled => h ⟨r, List.mem_reverse.1 hr, hspoiled⟩)
  refine ⟨_, foldlM_over hread [], fun id => ?_⟩
  rw [List.append_nil, List.reverse_reverse, lookup_flatMap, search]
  simp only [lookup_textsIn]

/-! ## Looking a text up -/

/-- The text of an address, from languages that are read each time. -/
def lookupAnew (c : Catalog) (fs : Files) (id : Str) (language : Option Str) : Except Refusal Str :=
  match c.load fs (c.target language) with
  | .error e => .error e
  | .ok ts =>
    match ts.lookup id with
    | some t => .ok t
    | none =>
      if c.target language = c.defaultLanguage then .ok id
      else (c.load fs c.defaultLanguage).map (fun ds => (ds.lookup id).getD id)

/-- The same catalog with languages that have been read since. -/
structure Reads (c : Catalog) (fs : Files) (c' : Catalog) : Prop where
  roots : c'.roots = c.roots
  defaultLanguage : c'.defaultLanguage = c.defaultLanguage
  language : c'.language = c.language
  known : ∀ l ts, c'.known.lookup l = some ts → c.load fs l = .ok ts

theorem Reads.of_new (h : c.known = []) : c.Reads fs c := ⟨rfl, rfl, rfl, fun l ts hl => by rw [h] at hl; cases hl⟩

theorem Reads.texts_eq (h : c.Reads fs c') (l : Str) : ∃ c'', c.Reads fs c'' ∧
    c'.texts fs l = (c.load fs l).map (fun ts => (ts, c'')) := by
  unfold texts
  cases hl : c'.known.lookup l with
  | some ts => exact ⟨c', h, by rw [h.known l ts hl]; rfl⟩
  | none =>
    have hload : c'.load fs l = c.load fs l := by rw [load, load, h.roots]
    cases hts : c.load fs l with
    | error e => exact ⟨c', h, by rw [hload, hts]; rfl⟩
    | ok ts =>
      refine ⟨{ c' with known := (l, ts) :: c'.known }, ⟨h.roots, h.defaultLanguage, h.language, fun l' ts' hl' => ?_⟩,
        by rw [hload, hts]; rfl⟩
      rw [List.lookup_cons] at hl'
      split at hl'
      · next heq => rw [eq_of_beq heq, ← Option.some.inj hl', hts]
      · exact h.known l' ts' hl'

/-- **What is kept does not matter.** -/
theorem get_of_reads (h : c.Reads fs c') (id : Str) (language : Option Str) :
    c.Reads fs (c'.get fs id language).1 ∧ (c'.get fs id language).2 = c.lookupAnew fs id language := by
  have htarget : c'.target language = c.target language := by unfold target; rw [h.language, h.defaultLanguage]
  obtain ⟨c₁, hreads, htexts⟩ := h.texts_eq (c.target language)
  unfold get lookupAnew
  dsimp only
  rw [htarget, htexts]
  cases c.load fs (c.target language) with
  | error e => exact ⟨h, rfl⟩
  | ok ts =>
    simp only [Except.map]
    cases ts.lookup id with
    | some t => exact ⟨hreads, rfl⟩
    | none =>
      simp only [hreads.defaultLanguage, beq_iff_eq]
      by_cases hdefault : c.target language = c.defaultLanguage
      · rw [if_pos hdefault, if_pos hdefault]
        exact ⟨hreads, rfl⟩
      · obtain ⟨c₂, hreads', htexts'⟩ := hreads.texts_eq c.defaultLanguage
        simp only [if_neg hdefault, htexts']
        cases c.load fs c.defaultLanguage with
        | error e => exact ⟨hreads, rfl⟩
        | ok ds => exact ⟨hreads', rfl⟩

/-- The catalog after addresses have been asked for. -/
def after (c : Catalog) (fs : Files) (asked : List (Str × Option Str)) : Catalog :=
  asked.foldl (fun c q => (c.get fs q.1 q.2).1) c

theorem reads_after (asked : List (Str × Option Str)) (h : c.Reads fs c') : c.Reads fs (c'.after fs asked) := by
  induction asked generalizing c' with
  | nil => exact h
  | cons q asked ih => exact ih (get_of_reads h q.1 q.2).1

/-- A language that an answer needs is spoiled: the language that is asked for or, where it has no text, the default one. -/
def Fails (c : Catalog) (fs : Files) (id l : Str) : Prop :=
  c.Spoiled fs l ∨ l ≠ c.defaultLanguage ∧ c.search fs l id = none ∧ c.Spoiled fs c.defaultLanguage

/-- **An answer fails only with a language that it needs.** -/
theorem lookupAnew_eq (c : Catalog) (fs : Files) (id : Str) (language : Option Str) :
    (c.Fails fs id (c.target language) ∧ c.lookupAnew fs id language = .error .noSuchPart) ∨
    (¬ c.Fails fs id (c.target language) ∧ c.lookupAnew fs id language =
      .ok (((c.search fs (c.target language) id).or (c.search fs c.defaultLanguage id)).getD id)) := by
  unfold lookupAnew Fails
  generalize c.target language = l
  by_cases hl : c.Spoiled fs l
  · exact .inl ⟨.inl hl, by rw [load_of_spoiled hl]⟩
  · obtain ⟨ts, hload, hts⟩ := load_of_not_spoiled hl
    rw [hload]
    dsimp only
    rw [hts]
    cases hfound : c.search fs l id with
    | some t => exact .inr ⟨by simp [hl], rfl⟩
    | none =>
      by_cases hdefault : l = c.defaultLanguage
      · subst hdefault
        exact .inr ⟨by simp [hl], by simp [hfound]⟩
      · by_cases hspoiled : c.Spoiled fs c.defaultLanguage
        · exact .inl ⟨.inr ⟨hdefault, rfl, hspoiled⟩, by simp [hdefault, load_of_spoiled hspoiled, Except.map]⟩
        · obtain ⟨ds, hload', hds⟩ := load_of_not_spoiled hspoiled
          exact .inr ⟨by simp [hl, hspoiled], by simp [hdefault, hload', hds, Except.map]⟩

/-- **What a catalog answers.**  Whatever has been asked before, a new catalog answers with the text of the first root that has
one in the language that is asked for, else of the first that has one in the default language, else with the address itself;
in a root the last file that has the address counts.  It answers so unless a language that it has to read is spoiled: some
file for it, in any root, is JSON but no table.  Then it fails. -/
theorem get_after (c : Catalog) (hnew : c.known = []) (fs : Files) (asked : List (Str × Option Str)) (id : Str)
    (language : Option Str) :
    (((c.after fs asked).get fs id language).2 = .error .noSuchPart ↔ c.Fails fs id (c.target language)) ∧
    (∀ t, ((c.after fs asked).get fs id language).2 = .ok t ↔ ¬ c.Fails fs id (c.target language) ∧
      t = ((c.search fs (c.target language) id).or (c.search fs c.defaultLanguage id)).getD id) ∧
    ∀ p l t, rootText? fs l id (.directory p) = some t ↔ ∃ dir, languageDir p l = some dir ∧ ∃ name ∈ fileNames fs dir,
      fileText? fs dir id name = some t ∧ ∀ later ∈ fileNames fs dir, name < later → fileText? fs dir id later = none := by
  rw [(get_of_reads (reads_after asked (.of_new hnew)) id language).2]
  refine ⟨?_, fun t => ?_, fun p l t => rootText?_directory_iff⟩
  · rcases lookupAnew_eq c fs id language with ⟨hfails, heq⟩ | ⟨hfails, heq⟩ <;> simp [hfails, heq]
  · rcases lookupAnew_eq c fs id language with ⟨hfails, heq⟩ | ⟨hfails, heq⟩ <;> simp [hfails, heq, eq_comm]

/-- A catalog with one root. -/
def oneRoot : Catalog := .of [.directory (.fromRoot ["r"])] none

/-- In the root a file that is a list stands beside one that has a text. -/
def besideList : Files :=
  ⟨[(["r"], .directory), (["r", "en"], .directory), (["r", "en", "a.json"], .file (Bytes.ofString "[1]")),
    (["r", "en", "b.json"], .file (Bytes.ofString "\x7b\"k\":\"v\"\x7d"))]⟩

theorem mem_fileNames_besideList (name : String) :
    name ∈ fileNames besideList (.fromRoot ["r"] ++ Path.ofString "en") ↔ name = "a.json" ∨ name = "b.json" := by
  have hlocate : besideList.locate (.fromRoot ["r"] ++ Path.ofString "en") = .ok ["r", "en"] := rfl
  have hdirectory : besideList.isDirectory (.fromRoot ["r"] ++ Path.ofString "en") = true := by decide +kernel
  have hin : (besideList.namesIn ["r", "en"]).filter isCatalogFile = ["a.json", "b.json"] := by decide +kernel
  rw [fileNames, if_pos hdirectory, Files.list, hlocate]
  dsimp only
  rw [List.mem_filter, List.mem_mergeSort, ← List.mem_filter, hin]
  simp

/-- The list keeps the text from being found. -/
theorem get_after_besideList : oneRoot.known = [] ∧ oneRoot.search besideList "en" "k" = some (Str.ofString "v") ∧
    ((oneRoot.after besideList []).get besideList "k" none).2 = .error .noSuchPart := by
  have hsearch : oneRoot.search besideList "en" "k" = some (Str.ofString "v") := by
    have hroot : rootText? besideList "en" "k" (.directory (.fromRoot ["r"])) = some (Str.ofString "v") := by
      rw [rootText?_directory_iff]
      refine ⟨_, languageDir_ofString _ _, "b.json", (mem_fileNames_besideList _).2 (.inr rfl), by decide +kernel,
        fun later hlater hlt => ?_⟩
      rcases (mem_fileNames_besideList later).1 hlater with rfl | rfl
      · exact absurd hlt (by decide)
      · exact absurd hlt (String.lt_irrefl _)
    simp [search, oneRoot, Catalog.of, hroot]
  have hlist : SpoiledBy besideList (.fromRoot ["r"] ++ Path.ofString "en") "a.json" :=
    ⟨Bytes.ofString "[1]", rfl, .list [.integer 1], rfl, fun es heq => by cases heq⟩
  have hspoiled : oneRoot.Spoiled besideList "en" :=
    ⟨.directory (.fromRoot ["r"]), List.mem_singleton.2 rfl, _, languageDir_ofString _ _, "a.json",
      (mem_fileNames_besideList _).2 (.inl rfl), hlist⟩
  exact ⟨rfl, hsearch, (get_after oneRoot rfl besideList [] "k" none).1.2 (.inl hspoiled)⟩

end Catalog
end TagAlias
