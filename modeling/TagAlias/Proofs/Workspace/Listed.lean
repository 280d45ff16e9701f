import TagAlias.Proofs.Files.Spelled
import TagAlias.Proofs.Text.Lines
import TagAlias.Proofs.Text.Utf8
import TagAlias.Proofs.Workspace.Sources
/-!
# Files that a repository lists

A repository prints the name of each file on a line of its own, in quotes and with escapes if a byte of it is no plain one.
Discovery takes the lines as they stand, less the blanks at their ends.  So exactly the listings of plain names without
blanks at their ends are read as the files that they list (`listed_printed_iff`).

A line may be read as a name that another line stands for, so a file that is not read from its own line need not be
missing.  But what is printed in quotes has more that is to be escaped than the name that it stands for, and what has lost
its blanks is shorter than the name.  So among the names that are not read from their own lines one is missing.
-/
namespace TagAlias

namespace Listing

open Text (weight)

variable {c : Char} {cs : List Char} {p q root : Path} {ps : List Path}

/-! ## What is printed -/

/-- Whether a byte is printed as it is: it is printable, and neither a quote nor a backslash. -/
def isPlainByte (b : UInt8) : Bool := 0x20 ≤ b && b ≤ 0x7e && b != 0x22 && b != 0x5c

def isPlain (cs : List Char) : Bool := (Utf8.encode cs).all isPlainByte

/-- The bytes that have a letter to stand for them behind a backslash. -/
def letters : List (UInt8 × Char) :=
  [(0x07, 'a'), (0x08, 'b'), (0x09, 't'), (0x0a, 'n'), (0x0b, 'v'), (0x0c, 'f'), (0x0d, 'r'), (0x22, '"'), (0x5c, '\\')]

def escape (b : UInt8) : List Char :=
  if isPlainByte b then [Char.ofNat b.toNat]
  else '\\' :: match letters.lookup b with
    | some letter => [letter]
    | none => [b.toNat / 64, b.toNat / 8 % 8, b.toNat % 8].map Nat.digitChar

def printed (cs : List Char) : List Char :=
  if isPlain cs then cs else '"' :: ((Utf8.encode cs).flatMap escape ++ ['"'])

/-- What a repository prints for files. -/
def ofNames (ps : List Path) : String :=
  String.ofList ((ps.map (fun p => printed p.display.toList)).flatMap (· ++ ['\n']))

/-- A file name is printed as it is, and has no blanks at its ends. -/
structure IsKept (p : Path) : Prop where
  plain : ∀ b ∈ Utf8.encode p.display.toList, isPlainByte b = true
  head : p.display.toList.head? ≠ some ' '
  last : p.display.toList.getLast? ≠ some ' '

instance (p : Path) : Decidable (IsKept p) :=
  decidable_of_iff (isPlain p.display.toList = true ∧ p.display.toList.head? ≠ some ' ' ∧ p.display.toList.getLast? ≠ some ' ')
    ⟨fun ⟨hplain, hhead, hlast⟩ => ⟨List.all_eq_true.1 hplain, hhead, hlast⟩,
      fun h => ⟨List.all_eq_true.2 h.plain, h.head, h.last⟩⟩

theorem isPlain_iff : isPlain cs = true ↔ ∀ c ∈ cs, isPlain [c] = true := by
  simp [isPlain, Utf8.encode, List.all_flatMap]

theorem toNat_of_isPlainByte {b : UInt8} (h : isPlainByte b = true) : 0x20 ≤ b.toNat ∧ b.toNat ≤ 0x7e := by
  simp only [isPlainByte, Bool.and_eq_true, decide_eq_true_eq, UInt8.le_iff_toNat_le] at h
  exact ⟨h.1.1.1, h.1.1.2⟩

theorem toNat_of_isPlain (h : isPlain [c] = true) : 0x20 ≤ c.toNat ∧ c.toNat < 0x20 + 0x5f := by
  have hall : ∀ b ∈ String.utf8EncodeChar c, 0x20 ≤ b.toNat ∧ b.toNat ≤ 0x7e := fun b hb =>
    toNat_of_isPlainByte (List.all_eq_true.1 h b (by simpa [Utf8.encode] using hb))
  by_cases hascii : c.toNat < 0x80
  · have hbyte := hall (UInt8.ofNat c.toNat) (by rw [Utf8.encodeChar_one hascii]; simp)
    rw [UInt8.toNat_ofNat', Nat.mod_eq_of_lt (by omega)] at hbyte
    omega
  · -- The last byte of any other character is too great.
    have htail : UInt8.ofNat (c.toNat % 64 + 0x80) ∈ String.utf8EncodeChar c := by
      by_cases htwo : c.toNat < 0x800
      · rw [Utf8.encodeChar_two (by omega) htwo]; simp
      by_cases hthree : c.toNat < 0x10000
      · rw [Utf8.encodeChar_three (by omega) hthree]; simp
      · rw [Utf8.encodeChar_four (by omega)]; simp
    have hbyte := hall _ htail
    rw [UInt8.toNat_ofNat', Nat.mod_eq_of_lt (by omega)] at hbyte
    omega

theorem isBoundary_of_toNat (hmin : 0x20 ≤ c.toNat) (hmax : c.toNat < 0x20 + 0x5f) : Text.isBoundary c = false :=
  Utf8.of_toNat_range (P := fun c => Text.isBoundary c = false) (by decide) hmin hmax

theorem isBoundary_of_isPlain (h : isPlain [c] = true) : Text.isBoundary c = false :=
  isBoundary_of_toNat (toNat_of_isPlain h).1 (toNat_of_isPlain h).2

theorem isBlank_of_isPlain (h : isPlain [c] = true) : Text.isBlank c = false ↔ c ≠ ' ' := by
  obtain ⟨hmin, hmax⟩ := toNat_of_isPlain h
  exact Utf8.of_toNat_range (P := fun c => Text.isBlank c = false ↔ c ≠ ' ') (by decide) hmin hmax

theorem isBoundary_escape (b : UInt8) : ∀ c ∈ escape b, Text.isBoundary c = false := by
  have hdigit : ∀ n < 8, Text.isBoundary (Nat.digitChar n) = false := by decide
  have hletter : ∀ x ∈ letters, Text.isBoundary x.2 = false := by decide
  have hbyte := b.toNat_lt
  unfold escape
  split
  · next hplain =>
    obtain ⟨hmin, hmax⟩ := toNat_of_isPlainByte hplain
    have hchar : (Char.ofNat b.toNat).toNat = b.toNat := Utf8.toNat_ofNat (.inl (by omega))
    simpa using isBoundary_of_toNat (c := Char.ofNat b.toNat) (by omega) (by omega)
  · split
    · next letter hlookup =>
      have hchar := hletter _ (mem_of_lookup hlookup)
      simpa using ⟨by decide, hchar⟩
    · simpa using ⟨by decide, hdigit _ (by omega), hdigit _ (by omega), hdigit _ (by omega)⟩

/-- What is printed stays on its line. -/
theorem isBoundary_printed : ∀ c ∈ printed cs, Text.isBoundary c = false := by
  unfold printed
  split
  · next hplain => exact fun c hc => isBoundary_of_isPlain (isPlain_iff.1 hplain c hc)
  · intro c hc
    simp only [List.mem_cons, List.mem_append, List.mem_flatMap, List.not_mem_nil, or_false] at hc
    rcases hc with rfl | ⟨b, -, hc⟩ | rfl
    · rfl
    · exact isBoundary_escape b c hc
    · rfl

/-! ## What has to be escaped -/

/-- Whether a character has to be escaped, as a number. -/
def oddity (c : Char) : Nat := if isPlain [c] then 0 else 1

theorem weight_oddity_eq_zero_iff : weight oddity cs = 0 ↔ isPlain cs = true := by
  rw [isPlain_iff, weight, List.sum_eq_zero_iff]
  simp [oddity]

theorem weight_oddity_le_escaped (cs : List Char) : weight oddity cs ≤ weight oddity ((Utf8.encode cs).flatMap escape) := by
  induction cs with
  | nil => exact Nat.le_refl 0
  | cons c cs ih =>
    have hchar : oddity c ≤ weight oddity ((String.utf8EncodeChar c).flatMap escape) := by
      by_cases hplain : isPlain [c] = true
      · rw [oddity, if_pos hplain]
        exact Nat.zero_le _
      · obtain ⟨b, hb, hnot⟩ : ∃ b ∈ String.utf8EncodeChar c, isPlainByte b = false := by
          simpa [isPlain, Utf8.encode] using hplain
        have hmem : '\\' ∈ (String.utf8EncodeChar c).flatMap escape :=
          List.mem_flatMap.2 ⟨b, hb, by simp [escape, hnot]⟩
        calc oddity c = weight oddity ['\\'] := by rw [oddity, if_neg hplain]; decide
          _ ≤ _ := Text.weight_mono (List.singleton_sublist.2 hmem)
    rw [Utf8.encode_cons, List.flatMap_append, Text.weight_append, Text.weight_cons]
    exact Nat.add_le_add hchar ih

/-- What is printed in quotes has more to be escaped than the name. -/
theorem weight_oddity_lt_printed (h : isPlain cs = false) : weight oddity cs < weight oddity (printed cs) := by
  have hquote : oddity '"' = 1 := by decide
  have hescaped := weight_oddity_le_escaped cs
  rw [printed, if_neg (by simp [h]), Text.weight_cons, Text.weight_append, hquote]
  omega

/-! ## What is read -/

/-- The text of a line as discovery reads it. -/
def stripped (p : Path) : List Char := Text.strip (printed p.display.toList)

/-- The path that is read from the line of a file. -/
def read (p : Path) : Path := Path.ofString (String.ofList (stripped p))

theorem strip_lines : (Text.lines (ofNames ps).toList).map Text.strip = ps.map stripped := by
  rw [ofNames, String.toList_ofList, Text.lines_ended, List.map_map]
  · exact List.map_congr_left (fun p _ => rfl)
  · intro l hl
    obtain ⟨p, -, rfl⟩ := List.mem_map.1 hl
    exact isBoundary_printed

theorem mem_listed_iff {d : Discovery} :
    q ∈ d.listed (ofNames ps) ↔ ∃ p ∈ ps, stripped p ≠ [] ∧ q = d.root ++ read p := by
  rw [Discovery.listed, strip_lines, List.mem_filterMap]
  simp only [List.mem_map]
  constructor
  · rintro ⟨_, ⟨p, hp, rfl⟩, h⟩
    split at h
    · cases h
    · next hne => exact ⟨p, hp, by simpa using hne, (Option.some.inj h).symm⟩
  · rintro ⟨p, hp, hne, hq⟩
    refine ⟨stripped p, ⟨p, hp, rfl⟩, ?_⟩
    rw [if_neg (by simpa using hne), hq, read]

theorem isKept_iff : IsKept p ↔ isPlain p.display.toList = true ∧ Text.strip p.display.toList = p.display.toList := by
  rw [Text.strip_eq_self_iff]
  constructor
  · rintro ⟨hplain, hhead, hlast⟩
    have hall := List.all_eq_true.2 hplain
    refine ⟨hall, fun c hc => ?_, fun c hc => ?_⟩
    · exact (isBlank_of_isPlain (isPlain_iff.1 hall c (List.mem_of_mem_head? hc))).2 (by rintro rfl; exact hhead hc)
    · exact (isBlank_of_isPlain (isPlain_iff.1 hall c (List.mem_of_getLast? hc))).2 (by rintro rfl; exact hlast hc)
  · rintro ⟨hplain, hhead, hlast⟩
    refine ⟨List.all_eq_true.1 hplain, fun hc => ?_, fun hc => ?_⟩
    · cases hhead ' ' hc
    · cases hlast ' ' hc

theorem stripped_of_plain (h : isPlain p.display.toList = true) : stripped p = Text.strip p.display.toList := by
  rw [stripped, printed, if_pos h]

theorem stripped_of_quoted (h : isPlain p.display.toList = false) : stripped p = printed p.display.toList := by
  rw [stripped, Text.strip_eq_self_iff, printed, if_neg (by simp [h])]
  constructor
  · rintro c ⟨⟩; rfl
  · intro c hc
    rw [List.getLast?_cons, List.getLast?_concat] at hc
    cases hc
    rfl

theorem read_of_kept (hp : p.IsFileName) (h : IsKept p) : read p = p := by
  obtain ⟨hplain, hstrip⟩ := isKept_iff.1 h
  rw [read, stripped_of_plain hplain, hstrip, String.ofList_toList, hp.ofString_display]

theorem stripped_ne_nil (hp : p.IsFileName) (h : IsKept p) : stripped p ≠ [] := by
  obtain ⟨hplain, hstrip⟩ := isKept_iff.1 h
  rw [stripped_of_plain hplain, hstrip]
  obtain ⟨c, hc, -⟩ := hp.head_display
  exact List.ne_nil_of_mem (List.mem_of_mem_head? hc)

/-! ## What is missing -/

theorem weight_read : (read p).weight oddity = weight oddity (stripped p) := by
  rw [read, Path.weight_ofString (by decide) (by decide), String.toList_ofList]

theorem weight_file (hp : p.IsFileName) : p.weight oddity = weight oddity p.display.toList := by
  have hslash : oddity '/' = 0 := by decide
  rw [hp.weight_display, hslash, Nat.add_zero]

/-- A file that is read from a plain line has a plain name. -/
theorem isPlain_of_read (hp : p.IsFileName) (h : root ++ p = root ++ read q) (hplain : isPlain q.display.toList = true) :
    isPlain p.display.toList = true := by
  rw [← weight_oddity_eq_zero_iff, ← Nat.le_zero]
  calc weight oddity p.display.toList = p.weight oddity := (weight_file hp).symm
    _ ≤ (read q).weight oddity := Path.weight_mono (Path.names_sublist_of_append hp.relative h)
    _ = weight oddity (Text.strip q.display.toList) := by rw [weight_read, stripped_of_plain hplain]
    _ ≤ weight oddity q.display.toList := Text.weight_mono (Text.strip_infix _).sublist
    _ = 0 := weight_oddity_eq_zero_iff.2 hplain

/-- A file that is read from a line in quotes has more to be escaped than the file that the line stands for. -/
theorem weight_lt_of_read (hp : p.IsFileName) (h : root ++ p = root ++ read q) (hquoted : isPlain q.display.toList = false) :
    weight oddity q.display.toList < weight oddity p.display.toList := by
  have hrelative : (read q).origin = .relative := by
    have hhead : (String.ofList (stripped q)).toList.head? ≠ some '/' := by
      rw [String.toList_ofList, stripped_of_quoted hquoted, printed, if_neg (by simp [hquoted])]
      simp
    rw [read, Path.ofString, Path.originOf_of_head hhead]
  calc weight oddity q.display.toList < weight oddity (printed q.display.toList) := weight_oddity_lt_printed hquoted
    _ = (read q).weight oddity := by rw [weight_read, stripped_of_quoted hquoted]
    _ = weight oddity p.display.toList := by rw [← Path.append_cancel hp.relative hrelative h, weight_file hp]

/-- A file that is read from a plain line has a shorter name than the file that the line stands for, unless it is kept. -/
theorem length_lt_of_read (hp : p.IsFileName) (h : root ++ p = root ++ read q)
    (hplain : isPlain q.display.toList = true) (hnot : ¬ IsKept q) :
    p.display.toList.length < q.display.toList.length := by
  have hstrip : (Text.strip q.display.toList).length < q.display.toList.length := by
    have hinfix := Text.strip_infix q.display.toList
    refine Nat.lt_of_le_of_ne hinfix.length_le (fun heq => hnot (isKept_iff.2 ⟨hplain, ?_⟩))
    exact hinfix.eq_of_length heq
  have hweight : p.display.toList.length + 1 ≤ (Text.strip q.display.toList).length + 1 := by
    calc p.display.toList.length + 1 = p.weight (fun _ => 1) := by rw [hp.weight_display, Text.weight_one]
      _ ≤ (read q).weight (fun _ => 1) := Path.weight_mono (Path.names_sublist_of_append hp.relative h)
      _ ≤ (stripped q).length + 1 := by
        rw [← Text.weight_one, read]
        simpa using Path.weight_ofString_le (fun _ => 1) (String.ofList (stripped q))
      _ = (Text.strip q.display.toList).length + 1 := by rw [stripped_of_plain hplain]
  omega

section
variable (hps : ∀ p ∈ ps, p.IsFileName) (hread : ∀ p ∈ ps, ∃ q ∈ ps, root ++ p = root ++ read q)
include hps hread

/-- **Where every file is read from some line, no name is printed in quotes**: one with the least to be escaped would not be
read. -/
theorem isPlain_of_all_read : ∀ p ∈ ps, isPlain p.display.toList = true := by
  intro p hp
  induction hn : weight oddity p.display.toList using Nat.strong_induction_on generalizing p with
  | h n ih =>
    obtain ⟨q, hq, h⟩ := hread p hp
    cases hplain : isPlain q.display.toList with
    | true => exact isPlain_of_read (hps p hp) h hplain
    | false =>
      have hlt := weight_lt_of_read (hps p hp) h hplain
      rw [ih _ (hn ▸ hlt) q hq rfl] at hplain
      cases hplain

/-- **Where every file is read from some line, each is kept**: of those that are not, one with the longest name would not
be read. -/
theorem isKept_of_all_read : ∀ p ∈ ps, IsKept p := by
  have hplain := isPlain_of_all_read hps hread
  obtain ⟨bound, hbound⟩ : ∃ bound, ∀ p ∈ ps, p.display.toList.length ≤ bound :=
    ⟨(ps.map (fun p => p.display.toList.length)).sum, fun p hp => List.le_sum_of_mem (List.mem_map.2 ⟨p, hp, rfl⟩)⟩
  suffices hfar : ∀ n, ∀ p ∈ ps, bound < p.display.toList.length + n → IsKept p from
    fun p hp => hfar (bound + 1) p hp (by omega)
  intro n
  induction n with
  | zero => exact fun p hp hlt => absurd (hbound p hp) (by omega)
  | succ n ih =>
    intro p hp hlt
    obtain ⟨q, hq, h⟩ := hread p hp
    by_cases hkept : IsKept q
    · rw [read_of_kept (hps q hq) hkept] at h
      rwa [Path.append_cancel (hps p hp).relative (hps q hq).relative h]
    · have hlonger := length_lt_of_read (hps p hp) h (hplain q hq) hkept
      exact absurd (ih q hq (by omega)) hkept

end

end Listing

namespace Discovery

open Listing (IsKept ofNames)

variable {d : Discovery} {ps : List Path}

theorem mem_listed_of_kept (hps : ∀ p ∈ ps, p.IsFileName) (hkept : ∀ p ∈ ps, IsKept p) (q : Path) :
    q ∈ d.listed (ofNames ps) ↔ ∃ p ∈ ps, q = d.root ++ p := by
  rw [Listing.mem_listed_iff]
  refine exists_congr (fun p => and_congr_right (fun hp => ?_))
  rw [Listing.read_of_kept (hps p hp) (hkept p hp), and_iff_right (Listing.stripped_ne_nil (hps p hp) (hkept p hp))]

/-- **What a repository lists is read as the files that it lists exactly if the name of each is plain, without blanks at its
ends.**  Then each of them with a known suffix is found where it is. -/
theorem listed_printed_iff (d : Discovery) {ps : List Path} (hps : ∀ p ∈ ps, p.IsFileName) :
    ((∀ q, q ∈ d.listed (ofNames ps) ↔ ∃ p ∈ ps, q = d.root ++ p) ↔ ∀ p ∈ ps, IsKept p) ∧
    ((∀ p ∈ ps, IsKept p) → ∀ fs : Files, fs.exists_ (d.root.child Project.repositoryName) = true →
      (∀ p ∈ ps, ∃ q, fs.resolve (d.root ++ p) = .ok q) →
      ∃ found, d.discover fs (.lines (ofNames ps)) [] = .ok found ∧
        ∀ q, q ∈ found ↔ ∃ p ∈ ps, (d.root ++ p).suffix ∈ d.suffixes ∧ fs.resolve (d.root ++ p) = .ok q) := by
  refine ⟨⟨fun h => ?_, mem_listed_of_kept hps⟩, fun hkept fs hrepository hplaces => ?_⟩
  · have hread : ∀ p ∈ ps, ∃ q ∈ ps, d.root ++ p = d.root ++ Listing.read q := by
      intro p hp
      obtain ⟨q, hq, -, heq⟩ := Listing.mem_listed_iff.1 ((h (d.root ++ p)).2 ⟨p, hp, rfl⟩)
      exact ⟨q, hq, heq⟩
    exact Listing.isKept_of_all_read hps hread
  · have hlisted := mem_listed_of_kept (d := d) hps hkept
    obtain ⟨cs, hcs⟩ : ∃ cs, d.candidates fs (.lines (ofNames ps)) = .ok cs := by
      refine exists_candidates_iff.2 (fun q hq _ => ?_)
      rw [found_of_lines hrepository, hlisted] at hq
      obtain ⟨p, hp, rfl⟩ := hq
      exact hplaces p hp
    refine ⟨Path.sorted cs, by unfold discover; rw [hcs]; rfl, fun q => ?_⟩
    rw [Path.mem_sorted_iff, mem_candidates_iff hcs, found_of_lines hrepository]
    constructor
    · rintro ⟨_, hmem, hknown, hplace⟩
      obtain ⟨p, hp, rfl⟩ := (hlisted _).1 hmem
      exact ⟨p, hp, hknown, hplace⟩
    · rintro ⟨p, hp, hknown, hplace⟩
      exact ⟨_, (hlisted _).2 ⟨p, hp, rfl⟩, hknown, hplace⟩

/-- A project with a repository, in which there is a file with a plain name and one with a name that is none. -/
def listedProject : Discovery := .of (.fromRoot ["w"]) []

@[inherit_doc listedProject]
def listedFiles : Files :=
  ⟨[(["w"], .directory), (["w", ".git"], .directory), (["w", "a.js"], .file []), (["w", "é.js"], .file [])]⟩

theorem listed_printed_accent :
    ofNames [⟨.relative, ["a.js"]⟩, ⟨.relative, ["é.js"]⟩] = "a.js\n\"\\303\\251.js\"\n" ∧
    ¬ (∀ q, q ∈ listedProject.listed (ofNames [⟨.relative, ["a.js"]⟩, ⟨.relative, ["é.js"]⟩]) ↔
      ∃ p ∈ ([⟨.relative, ["a.js"]⟩, ⟨.relative, ["é.js"]⟩] : List Path), q = listedProject.root ++ p) ∧
    ∃ found, listedProject.discover listedFiles (.lines (ofNames [⟨.relative, ["a.js"]⟩])) [] = .ok found ∧
      .fromRoot ["w", "a.js"] ∈ found := by
  refine ⟨by decide +kernel, fun h => ?_, ?_⟩
  · have hkept := (listed_printed_iff listedProject (by decide +kernel)).1.1 h
    exact absurd (hkept ⟨.relative, ["é.js"]⟩ (by simp)) (by decide +kernel)
  · have hplace : listedFiles.resolve (listedProject.root ++ ⟨.relative, ["a.js"]⟩) = .ok (.fromRoot ["w", "a.js"]) := by
      decide +kernel
    have hplaces : ∀ p ∈ ([⟨.relative, ["a.js"]⟩] : List Path), ∃ q, listedFiles.resolve (listedProject.root ++ p) = .ok q :=
      fun p hp => ⟨_, List.mem_singleton.1 hp ▸ hplace⟩
    obtain ⟨found, hfound, hmem⟩ := (listed_printed_iff listedProject (by decide +kernel)).2 (by decide +kernel) listedFiles
      (by decide +kernel) hplaces
    exact ⟨found, hfound, (hmem _).2 ⟨_, List.mem_singleton.2 rfl, by decide +kernel, hplace⟩⟩

end Discovery
end TagAlias
