import TagAlias.Proofs.Alias.Spliced
import TagAlias.Proofs.Component.Method
import TagAlias.Proofs.Text.Insertion
/-!
# Declarations on lines of their own

A method's declarations are put in right in front of its first statement, so behind the blanks that the statement has been
indented by; each ends its line and begins a new one with the same blanks.  Where nothing but blanks stands in front of the
statement on its line, that is the same as putting in whole lines in front of the statement's line
(`insertAt_render_eq_lines`).
-/
namespace TagAlias

namespace Text

/-! ## Offsets with blanks alone in front of them on their line -/

/-- On the line of an offset only the blanks `indent` stand in front of it; `front` are the lines before. -/
structure Indented (src : Bytes) (o : Nat) (front indent : Bytes) : Prop where
  split : src.take o = front ++ indent
  behindLine : front.getLast? = some lineFeed
  sameLine : lineFeed ∉ indent
  blank : indent.all isBlankByte = true

section

variable {src front indent : Bytes} {o : Nat}

theorem Indented.eq_append (h : Indented src o front indent) : src = front ++ (indent ++ src.drop o) := by
  rw [← List.append_assoc, ← h.split, List.take_append_drop]

theorem Indented.lineStart_eq (h : Indented src o front indent) : lineStart src o = front.length := by
  obtain ⟨before, hbefore⟩ := List.getLast?_eq_some_iff.1 h.behindLine
  have hsplit : src.take o = before ++ lineFeed :: indent := by
    rw [h.split, hbefore, List.append_assoc, List.singleton_append]
  rw [Text.lineStart_eq hsplit h.sameLine, hbefore, List.length_append, List.length_singleton]

/-- **An offset is indented exactly if it is on a line behind another one, with blanks alone in front of it.** -/
theorem exists_indented_iff : (∃ front indent, Indented src o front indent) ↔
    lineStart src o ≠ 0 ∧ (src.slice (lineStart src o) o).all isBlankByte = true := by
  constructor
  · rintro ⟨front, indent, h⟩
    have hne : front ≠ [] := fun hnil => by
      have hlast := h.behindLine
      rw [hnil] at hlast
      cases hlast
    rw [Bytes.slice_eq_drop, h.lineStart_eq, h.split, List.drop_left]
    exact ⟨Nat.ne_of_gt (List.length_pos_iff.2 hne), h.blank⟩
  · rintro ⟨hpos, hblank⟩
    have hmem : lineFeed ∈ src.take o := by
      by_contra hnot
      exact hpos (lineStart_eq_zero hnot)
    obtain ⟨before, indent, hsplit, hnot⟩ := exists_last_lineFeed hmem
    have hfront : src.take o = (before ++ [lineFeed]) ++ indent := by
      rw [hsplit, List.append_assoc, List.singleton_append]
    have hslice : src.slice (lineStart src o) o = indent := by
      rw [Bytes.slice_eq_drop, Text.lineStart_eq hsplit hnot, hfront]
      exact List.drop_left' (by rw [List.length_append, List.length_singleton])
    rw [hslice] at hblank
    exact ⟨before ++ [lineFeed], indent, hfront, List.getLast?_concat, hnot, hblank⟩

/-! ## Lines put in before the line of an offset -/

theorem Indented.insertAt (h : Indented src o front indent) (t : Bytes) :
    src.insertAt o t = front ++ (indent ++ (t ++ src.drop o)) := by
  rw [Bytes.insertAt, h.split, List.append_assoc]

theorem Indented.insertAt_front (h : Indented src o front indent) (t : Bytes) :
    src.insertAt front.length t = front ++ (t ++ (indent ++ src.drop o)) := by
  conv_lhs => rw [h.eq_append]
  rw [Bytes.insertAt, List.take_left, List.drop_left]

/-- A text that goes on behind whole lines and blanks is indented there. -/
theorem indented_append (hlast : front.getLast? = some lineFeed) (hsame : lineFeed ∉ indent)
    (hblank : indent.all isBlankByte = true) (rest : Bytes) :
    Indented (front ++ (indent ++ rest)) (front ++ indent).length front indent := by
  refine ⟨?_, hlast, hsame, hblank⟩
  rw [← List.append_assoc, List.take_left]

/-- **Whole lines put in before the line of an offset leave it as it is.** -/
theorem Indented.insertLines (h : Indented src o front indent) {t : Bytes} (ht : (front ++ t).getLast? = some lineFeed) :
    Indented (src.insertAt front.length t) (o + t.length) (front ++ t) indent ∧
      (src.insertAt front.length t).drop (o + t.length) = src.drop o := by
  have hout : src.insertAt front.length t = (front ++ t ++ indent) ++ src.drop o := by
    rw [h.insertAt_front]
    simp only [List.append_assoc]
  have hlength : (front ++ t ++ indent).length = (src.take o).length + t.length := by
    rw [h.split]
    simp only [List.length_append]
    omega
  rw [List.length_take] at hlength
  obtain ⟨htake, hdrop⟩ : (src.insertAt front.length t).take (o + t.length) = front ++ t ++ indent ∧
      (src.insertAt front.length t).drop (o + t.length) = src.drop o := by
    rw [hout]
    rcases Nat.le_total o src.length with hin | hbeyond
    · have hat : o + t.length = (front ++ t ++ indent).length := by omega
      rw [hat]
      exact ⟨List.take_left, List.drop_left⟩
    · rw [List.drop_eq_nil_of_le hbeyond, List.append_nil]
      exact ⟨List.take_of_length_le (by omega), List.drop_eq_nil_of_le (by omega)⟩
  exact ⟨⟨htake, ht, h.sameLine, h.blank⟩, hdrop⟩

/-! ## Line ends -/

/-- A line end like the one that a text ends in. -/
def lineEndOf (front : Bytes) : Bytes := if [0x0d, 0x0a] <:+ front then [0x0d, 0x0a] else [lineFeed]

theorem getLast?_lineEndOf (front : Bytes) : (lineEndOf front).getLast? = some lineFeed := by
  rw [lineEndOf]
  split <;> rfl

theorem toNat_lt_of_isBlankByte {b : UInt8} (h : isBlankByte b = true) : b.toNat < 0x80 := by
  simp only [isBlankByte, Bool.or_eq_true, beq_iff_eq, Bool.and_eq_true, decide_eq_true_eq, UInt8.le_iff_toNat_le,
    ← UInt8.toNat_inj, UInt8.reduceToNat] at h
  omega

theorem encode_blanks : ∀ {indent : Bytes}, indent.all isBlankByte = true →
    Utf8.encode (indent.map (fun b => Char.ofNat b.toNat)) = indent
  | [], _ => rfl
  | b :: bs, h => by
    rw [List.all_cons, Bool.and_eq_true] at h
    have hlt := toNat_lt_of_isBlankByte h.1
    have hchar : (Char.ofNat b.toNat).toNat = b.toNat := Utf8.toNat_ofNat (.inl (by omega))
    rw [List.map_cons, Utf8.encode_cons, Utf8.encodeChar_one (by rw [hchar]; exact hlt), Utf8.ofNat_eq hchar, encode_blanks h.2]
    rfl

end

end Text

namespace Component

open Text (Indented lineEndOf lineFeed)

variable {src front indent : Bytes} {o : Nat}

/-- **Where an offset is indented, a declaration there is followed by a new line with the same blanks.** -/
theorem ofString_separatorAt (h : Indented src o front indent) :
    Bytes.ofString (separatorAt src o) = lineEndOf front ++ indent := by
  obtain ⟨hpos, -⟩ := Text.exists_indented_iff.1 ⟨front, indent, h⟩
  have hindent : src.slice front.length o = indent := by
    rw [Bytes.slice_eq_drop, h.split, List.drop_left]
  have hfront : src.slice (front.length - 2) front.length = front.drop (front.length - 2) := by
    rw [Bytes.slice_eq_drop]
    conv_lhs => rw [h.eq_append]
    rw [List.take_left]
  have hcrlf : (src.slice (front.length - 2) front.length == [0x0d, 0x0a]) = true ↔ [0x0d, 0x0a] <:+ front := by
    rw [beq_iff_eq, hfront, List.suffix_iff_eq_drop]
    exact eq_comm
  rw [h.lineStart_eq] at hpos
  have hguard : (front.length == 0 || !indent.all Text.isBlankByte) = false := by
    rw [h.blank, beq_eq_false_iff_ne.2 hpos]
    rfl
  have hend : Bytes.ofString (if src.slice (front.length - 2) front.length == [0x0d, 0x0a] then "\r\n" else "\n") =
      lineEndOf front := by
    rw [lineEndOf]
    simp only [hcrlf]
    split <;> rfl
  simp only [separatorAt, h.lineStart_eq, hindent, hguard, Bool.false_eq_true, if_false]
  rw [ofString_append, hend, Bytes.ofString, String.toList_ofList, Text.encode_blanks h.blank]

/-- In front of anything else a declaration is followed by a blank. -/
theorem separatorAt_of_not_indented (h : ¬ ∃ front indent, Indented src o front indent) : separatorAt src o = " " := by
  rw [Text.exists_indented_iff, not_and_or, not_not] at h
  have hguard : (Text.lineStart src o == 0 || !(src.slice (Text.lineStart src o) o).all Text.isBlankByte) = true := by
    rw [Bool.or_eq_true, beq_iff_eq, Bool.not_eq_true', ← Bool.not_eq_true]
    exact h
  rw [separatorAt]
  simp only [hguard, if_true]

end Component

namespace Alias

open Text (Indented lineEndOf lineFeed)

/-! ## Whole lines -/

/-- The declaration of an alias as a line: the given blanks are in front of it, and it ends like the text `front`. -/
def declarationLine (stem : String) (front indent : Bytes) (x : String) : Bytes :=
  indent ++ (Bytes.ofString (declaration stem x) ++ lineEndOf front)

def declarationLines (stem : String) (front indent : Bytes) (names : List String) : Bytes :=
  names.flatMap (declarationLine stem front indent)

/-- Blanks in front of pieces that they follow, too, can as well stand in front of each piece and behind the last. -/
theorem append_flatMap_append {α β : Type} (i : List β) (f : α → List β) : ∀ xs : List α,
    i ++ xs.flatMap (fun x => f x ++ i) = xs.flatMap (fun x => i ++ f x) ++ i
  | [] => by rw [List.flatMap_nil, List.flatMap_nil, List.append_nil, List.nil_append]
  | x :: xs => by
    rw [List.flatMap_cons, List.flatMap_cons, List.append_assoc (f x), append_flatMap_append i f xs]
    simp only [List.append_assoc]

theorem ofString_declarationsText (stem separator : String) : ∀ names : List String,
    Bytes.ofString (declarationsText stem separator names) =
      names.flatMap (fun x => Bytes.ofString (declaration stem x) ++ Bytes.ofString separator)
  | [] => rfl
  | x :: xs => by
    rw [List.flatMap_cons, ← ofString_declarationsText stem separator xs, ← ofString_append, ← ofString_append]
    rw [declarationsText, List.map_cons, String.join_cons, declarationsText]

variable {src front indent : Bytes} {o : Nat}

theorem getLast?_declarationLines (stem : String) (lines indent : Bytes) : ∀ {front : Bytes} (names : List String),
    front.getLast? = some lineFeed → (front ++ declarationLines stem lines indent names).getLast? = some lineFeed
  | front, [], h => by rwa [declarationLines, List.flatMap_nil, List.append_nil]
  | front, x :: xs, h => by
    have hline : (front ++ declarationLine stem lines indent x).getLast? = some lineFeed := by
      rw [declarationLine, List.getLast?_append, List.getLast?_append, List.getLast?_append, Text.getLast?_lineEndOf]
      rfl
    rw [declarationLines, List.flatMap_cons, ← List.append_assoc]
    exact getLast?_declarationLines stem lines indent xs hline

/-- **What is put in where an offset is indented are whole lines in front of its line.** -/
theorem insertAt_declarationsText (h : Indented src o front indent) (stem : String) (names : List String) :
    src.insertAt o (Bytes.ofString (declarationsText stem (Component.separatorAt src o) names)) =
      src.insertAt front.length (declarationLines stem front indent names) := by
  have hrotate := append_flatMap_append indent (fun x => Bytes.ofString (declaration stem x) ++ lineEndOf front) names
  simp only [List.append_assoc] at hrotate
  rw [h.insertAt, h.insertAt_front, ofString_declarationsText, Component.ofString_separatorAt h, ← List.append_assoc indent,
    hrotate, List.append_assoc]
  rfl

/-- **Each declaration stands on its line as the offset does on its own.** -/
theorem exists_indented_declaration (h : Indented src o front indent) (stem : String) (xs : List String) (x : String)
    (ys : List String) : ∃ a,
    Indented (src.insertAt front.length (declarationLines stem front indent (xs ++ x :: ys))) a
      (front ++ declarationLines stem front indent xs) indent ∧
    Bytes.ofString (declaration stem x) ++ lineEndOf front <+:
      (src.insertAt front.length (declarationLines stem front indent (xs ++ x :: ys))).drop a := by
  have hout : src.insertAt front.length (declarationLines stem front indent (xs ++ x :: ys)) =
      (front ++ declarationLines stem front indent xs) ++ (indent ++ (Bytes.ofString (declaration stem x) ++
        lineEndOf front ++ (declarationLines stem front indent ys ++ (indent ++ src.drop o)))) := by
    rw [h.insertAt_front]
    simp only [declarationLines, declarationLine, List.flatMap_append, List.flatMap_cons, List.append_assoc]
  rw [hout]
  refine ⟨_, Text.indented_append (getLast?_declarationLines stem front indent xs h.behindLine) h.sameLine h.blank _, ?_⟩
  rw [← List.append_assoc _ indent, List.drop_left]
  exact List.prefix_append _ _

/-! ## Points of methods -/

/-- The point that a method asks for at an offset, with names. -/
def pointOfMethod (o : Int) (m : ComponentMethod) (names : List String) : InsertionPoint :=
  { InsertionPoint.forMethod o m with names }

/-- A plan of one point that needs no lead puts in what is rendered there. -/
theorem splice_singleton (stem : String) {p : InsertionPoint} (hlead : p.lead = "") (hoffset : p.offset = (o : Int))
    (hin : o ≤ src.length) :
    (⟨[p]⟩ : Plan).splice stem src = .ok (src.insertAt o (Bytes.ofString (render stem p))) := by
  have hrest : src.slice o src.length = src.drop o := by rw [Bytes.slice_eq_drop, List.take_length]
  rw [Plan.splice, Plan.descending, List.mergeSort_singleton, spliceFrom]
  split
  · next hempty =>
    have hrender : render stem p = "" := by
      rw [render, hlead, List.isEmpty_iff.1 hempty]
      rfl
    rw [spliceFrom, hrender, Bytes.slice_zero, List.take_length, List.append_nil, Bytes.insertAt]
    exact congrArg Except.ok (List.take_append_drop o src).symm
  · rw [if_pos (by omega), spliceFrom, hoffset, Int.toNat_natCast, Bytes.slice_zero, hrest, List.append_nil, Bytes.insertAt]

/-- **Layout is kept.**  The declarations of a method are put in in front of the first statement of its body that is no
directive.  If the statement is indented, they are so, too, on lines of their own, and the statement stands on its line as
before.  Else they stand in front of it in one line. -/
theorem insertAt_render_eq_lines {name : String} {n body first : Node} {m : ComponentMethod}
    (h : Component.method src name n = .ok m) (hbody : n.child? "body" = some body)
    (hfirst : (Component.statements body).find? (fun s => !Component.isDirective s) = some first) (stem : String)
    (names : List String) :
    m.bodyStart = some (first.start : Int) ∧
    (first.start ≤ src.length → (⟨[pointOfMethod first.start m names]⟩ : Plan).splice stem src =
      .ok (src.insertAt first.start (Bytes.ofString (render stem (pointOfMethod first.start m names))))) ∧
    (∀ front indent, Indented src first.start front indent → ∃ out,
      src.insertAt first.start (Bytes.ofString (render stem (pointOfMethod first.start m names))) = out ∧
      src.insertAt front.length (declarationLines stem front indent names) = out ∧
      Indented out (first.start + (declarationLines stem front indent names).length)
        (front ++ declarationLines stem front indent names) indent ∧
      out.drop (first.start + (declarationLines stem front indent names).length) = src.drop first.start ∧
      ∀ xs x ys, names = xs ++ x :: ys → ∃ a, Indented out a (front ++ declarationLines stem front indent xs) indent ∧
        Bytes.ofString (declaration stem x) ++ lineEndOf front <+: out.drop a) ∧
    ((¬ ∃ front indent, Indented src first.start front indent) →
      render stem (pointOfMethod first.start m names) = String.join (names.map (fun x => declaration stem x ++ " "))) := by
  obtain ⟨at_, -, hm⟩ := Component.method_eq_ok_iff.1 h
  rw [hbody] at hm
  obtain ⟨o, lead, hstart, hm⟩ := hm
  rw [Component.bodyStart_of_first hfirst] at hstart
  obtain ⟨rfl, rfl⟩ := Prod.mk.inj (Except.ok.inj hstart)
  have hrender : render stem (pointOfMethod first.start m names) =
      declarationsText stem (Component.separatorAt src first.start) names := by
    rw [hm, render]
    exact String.empty_append
  refine ⟨by rw [hm], splice_singleton stem (by rw [hm]; rfl) rfl, ?_, ?_⟩
  · intro front indent hindented
    have hlines := hindented.insertLines (getLast?_declarationLines stem front indent names hindented.behindLine)
    refine ⟨_, ?_, rfl, hlines.1, hlines.2, ?_⟩
    · rw [hrender, insertAt_declarationsText hindented]
    · rintro xs x ys rfl
      exact exists_indented_declaration hindented stem xs x ys
  · intro hnot
    rw [hrender, Component.separatorAt_of_not_indented hnot, declarationsText]

/-! ## A method with its body on several lines and on one -/

/-- A method that returns something behind a directive. -/
def returning (directive first stop : Nat) : Node :=
  .mk ⟨"method_definition", 0, stop, "", true, false⟩
    [.mk ⟨"property_identifier", 0, 6, "name", true, false⟩ [],
      .mk ⟨"statement_block", 9, stop, "body", true, false⟩
        [.mk ⟨"\x7b", 9, 10, "", false, false⟩ [],
          .mk ⟨"expression_statement", directive, directive + 4, "", true, false⟩
            [.mk ⟨"string", directive, directive + 3, "", true, false⟩ []],
          .mk ⟨"return_statement", first, first + 9, "", true, false⟩ [],
          .mk ⟨"\x7d", stop - 1, stop, "", false, false⟩ []]]

/-- Two declarations come to stand on lines of their own, or in front of the statement where it has none. -/
theorem insertAt_render_returning :
    (⟨[pointOfMethod 20 ⟨"render", some 20, true, "", "\r\n\t", 1, 1⟩ ["A", "B"]]⟩ : Plan).splice "render"
        (Bytes.ofString "render() \x7b\r\n\t'u';\r\n\treturn 1;\r\n\x7d") =
      .ok (Bytes.ofString ("render() \x7b\r\n\t'u';\r\n" ++ "\tconst A = this.renderA;\r\n" ++
        "\tconst B = this.renderB;\r\n" ++ "\treturn 1;\r\n\x7d")) ∧
    (⟨[pointOfMethod 16 ⟨"render", some 16, true, "", " ", 1, 1⟩ ["A", "B"]]⟩ : Plan).splice "render"
        (Bytes.ofString "render() \x7b 'u'; return 1; \x7d") =
      .ok (Bytes.ofString "render() \x7b 'u'; const A = this.renderA; const B = this.renderB; return 1; \x7d") := by
  have hlines : Component.method (Bytes.ofString "render() \x7b\r\n\t'u';\r\n\treturn 1;\r\n\x7d") "render" (returning 13 20 32) =
      .ok ⟨"render", some 20, true, "", "\r\n\t", 1, 1⟩ := eq_ok_of_toOption (by decide +kernel)
  have hline : Component.method (Bytes.ofString "render() \x7b 'u'; return 1; \x7d") "render" (returning 11 16 27) =
      .ok ⟨"render", some 16, true, "", " ", 1, 1⟩ := eq_ok_of_toOption (by decide +kernel)
  constructor
  · obtain ⟨-, hsplice, hkept, -⟩ := insertAt_render_eq_lines hlines rfl rfl "render" ["A", "B"]
    obtain ⟨out, hout, hout', -⟩ := hkept (Bytes.ofString "render() \x7b\r\n\t'u';\r\n") [0x09]
      ⟨by decide +kernel, by decide +kernel, by decide, by decide⟩
    refine (hsplice (by decide +kernel)).trans (congrArg Except.ok (hout.trans ?_))
    rw [← hout']
    decide +kernel
  · obtain ⟨-, hsplice, -, hkept⟩ := insertAt_render_eq_lines hline rfl rfl "render" ["A", "B"]
    have hnot : ¬ ∃ front indent, Indented (Bytes.ofString "render() \x7b 'u'; return 1; \x7d") 16 front indent := by
      rw [Text.exists_indented_iff]
      decide +kernel
    refine (hsplice (by decide +kernel)).trans (congrArg Except.ok ?_)
    rw [hkept hnot]
    decide +kernel

end Alias

end TagAlias
