import TagAlias.Module
import TagAlias.Proofs.Scope.Table
import TagAlias.Proofs.Syntax.Preorder
import TagAlias.Proofs.Text.Placed
/-!
# The fault that is told of a tree

The search for the first node at fault leaves out what has no fault at or below it.  It finds the first in preorder all the
same (`firstFault?_eq`), whether it recurses or keeps a stack of the nodes that are still to be looked at (`searchFrom_eq`).  A
given tree makes a module exactly if no node of it is at fault, and what is told otherwise is about the first that is
(`read_tree`).
-/
namespace TagAlias

namespace Node

theorem isFault_iff (n : Node) : n.isFault = true ↔ n.kind = "ERROR" ∨ n.missing = true := by simp [isFault]

theorem preorder_eq (n : Node) : n.preorder = n :: preorderAll n.children := by
  cases n with
  | mk l cs => rw [preorder]; rfl

theorem preorderAll_append (ns ms : List Node) : preorderAll (ns ++ ms) = preorderAll ns ++ preorderAll ms := by
  induction ns with
  | nil => simp [preorderAll]
  | cons n ns ih => simp [preorderAll, ih]

/-! ## Whether there is a fault -/

mutual

/-- **A node has a fault exactly if one at or below it is at fault.** -/
theorem hasFault_iff : ∀ n : Node, n.hasFault = true ↔ ∃ m ∈ n.preorder, m.isFault = true
  | mk l cs => by
    rw [hasFault, preorder, Bool.or_eq_true, hasFaultIn_iff cs]
    simp

theorem hasFaultIn_iff : ∀ cs : List Node, hasFaultIn cs = true ↔ ∃ m ∈ preorderAll cs, m.isFault = true
  | [] => by simp [hasFaultIn, preorderAll]
  | c :: cs => by
    rw [hasFaultIn, preorderAll, Bool.or_eq_true, hasFault_iff c, hasFaultIn_iff cs]
    simp [or_and_right, exists_or]

end

theorem find?_isFault_eq_none {ns : List Node} (h : ¬ ∃ m ∈ ns, m.isFault = true) : ns.find? isFault = none :=
  List.find?_eq_none.2 (fun m hm hfault => h ⟨m, hm, hfault⟩)

/-! ## Which one is the first -/

mutual

/-- **What is left out hides no fault.** -/
theorem firstFault?_eq : ∀ n : Node, n.firstFault? = n.preorder.find? isFault
  | mk l cs => by
    rw [firstFault?, preorder, List.find?_cons]
    by_cases hself : (mk l cs).isFault = true
    · rw [if_pos hself, hself]
    · rw [if_neg hself, Bool.eq_false_iff.2 hself]
      by_cases hbelow : hasFaultIn cs = true
      · rw [if_pos hbelow]
        exact firstFaultIn?_eq cs
      · rw [if_neg hbelow]
        rw [hasFaultIn_iff] at hbelow
        exact (find?_isFault_eq_none hbelow).symm

theorem firstFaultIn?_eq : ∀ cs : List Node, firstFaultIn? cs = (preorderAll cs).find? isFault
  | [] => rfl
  | c :: cs => by rw [firstFaultIn?, preorderAll, List.find?_append, firstFault?_eq c, firstFaultIn?_eq cs]

end

/-- The search with a stack of the nodes still to be looked at. -/
def searchFrom : List Node → Option Node
  | [] => none
  | n :: stack =>
    if n.isFault then some n
    else if n.hasFault then searchFrom (n.children ++ stack)
    else searchFrom stack
termination_by stack => (preorderAll stack).length
decreasing_by
  all_goals
    have hn := congrArg List.length (preorder_eq n)
    simp only [preorderAll, preorderAll_append, List.length_append, List.length_cons] at hn ⊢
    omega

/-- **A stack leads through a tree in preorder.** -/
theorem searchFrom_eq (stack : List Node) : searchFrom stack = (preorderAll stack).find? isFault := by
  induction stack using searchFrom.induct with
  | case1 => rw [searchFrom]; rfl
  | case2 n stack hself => rw [searchFrom, if_pos hself, preorderAll, preorder_eq]; simp [hself]
  | case3 n stack hself hbelow ih =>
    rw [searchFrom, if_neg hself, if_pos hbelow, ih, preorderAll, preorder_eq, preorderAll_append]
    simp [hself]
  | case4 n stack hself hbelow ih =>
    rw [hasFault_iff] at hbelow
    rw [searchFrom, if_neg hself, if_neg (by rwa [hasFault_iff]), ih, preorderAll, List.find?_append,
      find?_isFault_eq_none hbelow, Option.none_or]

/-- On a tree with a fault the search finds one. -/
theorem exists_firstFault {n : Node} (h : n.hasFault = true) : ∃ m, n.firstFault? = some m := by
  rw [firstFault?_eq]
  obtain ⟨m, hm, hfault⟩ := (hasFault_iff n).1 h
  exact Option.isSome_iff_exists.1 (List.find?_isSome.2 ⟨m, hm, hfault⟩)

end Node

/-! ## Where it is told to be -/

open Utf8 (encode)

namespace Alias

theorem exists_cut {text : String} {o : Nat} (h : Bytes.IsBoundary (Bytes.ofString text) o) :
    ∃ before rest, text.toList = before ++ rest ∧ (encode before).length = o := by
  obtain ⟨hle, before, hbefore⟩ := h
  have hrest : Utf8.Encodes ((Bytes.ofString text).drop o) := by
    have hall := encodes_ofString text
    rw [← List.take_append_drop o (Bytes.ofString text)] at hall
    exact (Utf8.encodes_append ⟨before, hbefore⟩ _).1 hall
  obtain ⟨rest, hrest⟩ := hrest
  have hboth : encode text.toList = encode (before ++ rest) := by
    rw [Utf8.encode_append, hbefore, hrest, List.take_append_drop]
    rfl
  have hsame : (Except.ok text.toList : Except Utf8.Fault (List Char)) = .ok (before ++ rest) := by
    rw [← Utf8.decode_encode, hboth, Utf8.decode_encode]
  exact ⟨before, rest, Except.ok.inj hsame, by rw [hbefore, List.length_take, Nat.min_eq_left hle]⟩

theorem readable_of_boundaries {src : Bytes} {n : Node} (hstart : Bytes.IsBoundary src n.start) (hstop : Bytes.IsBoundary src n.stop) :
    Lexical.Readable src n := by
  have hslice : Utf8.Encodes (src.slice n.start n.stop) := by
    by_cases hle : n.start ≤ n.stop
    · exact Edits.encodes_slice hle hstart.2 hstop.2
    · rw [Bytes.slice_eq_nil src (by omega)]
      exact ⟨[], rfl⟩
  obtain ⟨cs, hcs⟩ := (Utf8.encodes_iff _).1 hslice
  exact ⟨String.ofList cs, by rw [Node.text, Bytes.toString?, hcs]; rfl⟩

end Alias

namespace SyntaxFault

/-- What is told of a node at fault: its kind if it is missing, else the beginning of its text. -/
def Tells (src : Bytes) (d : Dialect) (n : Node) (told : String) : Prop :=
  (n.missing = true ∧ told = "Missing '" ++ n.kind ++ "' (" ++ d.name ++ ")") ∨
    (n.missing = false ∧ ∃ s, n.text src = .ok s ∧ told = "Unexpected token '" ++ excerpt s ++ "' (" ++ d.name ++ ")")

theorem exists_tells (d : Dialect) {src : Bytes} {n : Node} (h : Lexical.Readable src n) :
    ∃ told, message src d n = .ok told ∧ Tells src d n told := by
  obtain ⟨s, hs⟩ := h
  unfold message Tells
  cases n.missing with
  | true => simp
  | false => simp [hs, Except.map]

/-- **A node at fault is told with the place where it begins.** -/
theorem failure_eq (file : String) (d : Dialect) {text : String} {n : Node}
    (hstart : Bytes.IsBoundary (Bytes.ofString text) n.start) (hstop : Bytes.IsBoundary (Bytes.ofString text) n.stop) :
    ∃ before rest told, text.toList = before ++ rest ∧ (encode before).length = n.start ∧
      Tells (Bytes.ofString text) d n told ∧ failure (Bytes.ofString text) file d n =
        .syntaxError ⟨told, file, before.count '\n' + 1, (Text.lastLine before).length + 1⟩ := by
  obtain ⟨before, rest, htext, hlength⟩ := Alias.exists_cut hstart
  obtain ⟨told, hmessage, htells⟩ := exists_tells d (Alias.readable_of_boundaries hstart hstop)
  have hplace := ofOffset_cut before rest
  rw [← htext, hlength] at hplace
  have hremark : remark (Bytes.ofString text) file d n =
      .ok ⟨told, file, before.count '\n' + 1, (Text.lastLine before).length + 1⟩ := by
    rw [remark, hmessage, Bytes.ofString, hplace]
    rfl
  exact ⟨before, rest, told, htext, hlength, htells, by rw [failure, hremark]⟩

end SyntaxFault

namespace Module

section

variable {parse : Parse} (file : String) (d : Dialect) {text : String} {tree : Node}
  (hparse : parse d text.toList = some tree) (hboundaries : ∀ n ∈ tree.preorder,
  Bytes.IsBoundary (Bytes.ofString text) n.start ∧ Bytes.IsBoundary (Bytes.ofString text) n.stop)

include hparse

theorem read_of_no_fault (h : tree.hasFault = false) :
    read parse file d text = .ok ⟨file, d, Bytes.ofString text, tree⟩ := by
  simp only [read, hparse, ofTree]
  rw [if_neg (by rw [h]; exact Bool.false_ne_true)]

include hboundaries

/-- **The fault that is told is the first one.** -/
theorem read_of_firstFault {n : Node} (h : tree.firstFault? = some n) :
    ∃ before rest told, text.toList = before ++ rest ∧ (encode before).length = n.start ∧
      SyntaxFault.Tells (Bytes.ofString text) d n told ∧ read parse file d text =
        .error (.syntaxError ⟨told, file, before.count '\n' + 1, (Text.lastLine before).length + 1⟩) := by
  have hfind := h
  rw [Node.firstFault?_eq] at hfind
  have hn : n ∈ tree.preorder := List.mem_of_find?_eq_some hfind
  have hfault : tree.hasFault = true := (Node.hasFault_iff tree).2 ⟨n, hn, List.find?_some hfind⟩
  obtain ⟨hstart, hstop⟩ := hboundaries n hn
  obtain ⟨before, rest, told, htext, hlength, htells, hfailure⟩ := SyntaxFault.failure_eq file d hstart hstop
  refine ⟨before, rest, told, htext, hlength, htells, ?_⟩
  simp only [read, hparse, ofTree]
  rw [if_pos hfault, h, Option.getD_some, hfailure]

/-- **A syntax error is told exactly of a tree with a fault.** -/
theorem exists_read_error_iff : (∃ r, read parse file d text = .error (.syntaxError r)) ↔ tree.hasFault = true := by
  constructor
  · rintro ⟨r, hr⟩
    by_contra hnone
    rw [read_of_no_fault file d hparse (Bool.eq_false_iff.2 hnone)] at hr
    cases hr
  · intro h
    obtain ⟨n, hn⟩ := Node.exists_firstFault h
    obtain ⟨before, -, told, -, -, -, hread⟩ := read_of_firstFault file d hparse hboundaries hn
    exact ⟨_, hread⟩

/-- **What is told of a tree.**  Where the nodes of a tree begin and end at boundaries of characters, reading it tells of a
syntax error exactly if some node is an error or missing, and gives its module otherwise.  The error is placed where the first
such node in preorder begins, by the line feeds in front of that and the characters since the last, and it tells the node's
kind or the beginning of its text.  The search goes down only where some node below is at fault, with a stack or without one.
It finds the node that a search through the whole tree finds, and there is one in every tree with a fault. -/
theorem read_tree :
    ((∃ r, read parse file d text = .error (.syntaxError r)) ↔
      ∃ n ∈ tree.preorder, n.kind = "ERROR" ∨ n.missing = true) ∧
    ((∀ n ∈ tree.preorder, ¬ (n.kind = "ERROR" ∨ n.missing = true)) →
      read parse file d text = .ok ⟨file, d, Bytes.ofString text, tree⟩) ∧
    (∀ front n back, tree.preorder = front ++ n :: back → (∀ m ∈ front, ¬ (m.kind = "ERROR" ∨ m.missing = true)) →
      n.kind = "ERROR" ∨ n.missing = true →
      tree.firstFault? = some n ∧ ∃ before rest told, text.toList = before ++ rest ∧
        (encode before).length = n.start ∧ SyntaxFault.Tells (Bytes.ofString text) d n told ∧
        read parse file d text = .error (.syntaxError
          ⟨told, file, before.count '\n' + 1, (Text.lastLine before).length + 1⟩)) ∧
    tree.firstFault? = tree.preorder.find? Node.isFault ∧ Node.searchFrom [tree] = tree.firstFault? ∧
    (tree.hasFault = true ↔ ∃ n ∈ tree.preorder, n.kind = "ERROR" ∨ n.missing = true) ∧
    (tree.hasFault = true → tree.firstFault? ≠ none) := by
  have hfault : tree.hasFault = true ↔ ∃ n ∈ tree.preorder, n.kind = "ERROR" ∨ n.missing = true := by
    simp only [Node.hasFault_iff, Node.isFault_iff]
  refine ⟨?_, ?_, ?_, Node.firstFault?_eq tree, ?_, hfault, ?_⟩
  · rw [exists_read_error_iff file d hparse hboundaries, hfault]
  · intro hnone
    refine read_of_no_fault file d hparse (Bool.eq_false_iff.2 (fun h => ?_))
    obtain ⟨n, hn, hkind⟩ := hfault.1 h
    exact hnone n hn hkind
  · intro front n back hsplit hfront hn
    have hnot : ¬ ∃ m ∈ front, m.isFault = true := fun ⟨m, hm, hkind⟩ => hfront m hm ((Node.isFault_iff m).1 hkind)
    have hfirst : tree.firstFault? = some n := by
      rw [Node.firstFault?_eq, hsplit, List.find?_append, Node.find?_isFault_eq_none hnot, Option.none_or,
        List.find?_cons, (Node.isFault_iff n).2 hn]
    exact ⟨hfirst, read_of_firstFault file d hparse hboundaries hfirst⟩
  · rw [Node.searchFrom_eq, Node.firstFault?_eq, Node.preorderAll, Node.preorderAll, List.append_nil]
  · intro h
    obtain ⟨n, hn⟩ := Node.exists_firstFault h
    rw [hn]
    exact Option.some_ne_none n

end

/-- A tree of two lines.  Below the first node on the second line there are two faults, and one more stands behind it. -/
def twoLines : Node :=
  .mk ⟨"program", 0, 7, "", true, false⟩ [
    .mk ⟨"identifier", 0, 2, "", true, false⟩ [],
    .mk ⟨"call_expression", 3, 7, "", true, false⟩ [
      .mk ⟨"identifier", 3, 5, "", true, false⟩ [],
      .mk ⟨"ERROR", 6, 7, "", true, false⟩ [.mk ⟨";", 7, 7, "", false, true⟩ []]],
    .mk ⟨"ERROR", 7, 7, "", true, false⟩ []]

/-- The first fault in it stands behind two characters that are three bytes. -/
theorem read_tree_twoLines :
    (∀ n ∈ twoLines.preorder, Bytes.IsBoundary (Bytes.ofString "é\nß )") n.start ∧
      Bytes.IsBoundary (Bytes.ofString "é\nß )") n.stop) ∧
    (∃ r, read (.given twoLines) "a.tsx" .tsx "é\nß )" = .error (.syntaxError r)) ∧
    read (.given twoLines) "a.tsx" .tsx "é\nß )" = .error (.syntaxError ⟨"Unexpected token ')' (tsx)", "a.tsx", 2, 3⟩) := by
  have hboundaries : ∀ n ∈ twoLines.preorder, Bytes.IsBoundary (Bytes.ofString "é\nß )") n.start ∧
      Bytes.IsBoundary (Bytes.ofString "é\nß )") n.stop := by decide +kernel
  have hfault : ∃ n ∈ twoLines.preorder, n.kind = "ERROR" ∨ n.missing = true := by decide
  have htold : SyntaxFault.failure (Bytes.ofString "é\nß )") "a.tsx" .tsx (twoLines.firstFault?.getD twoLines) =
      .syntaxError ⟨"Unexpected token ')' (tsx)", "a.tsx", 2, 3⟩ := by decide +kernel
  refine ⟨hboundaries, (read_tree "a.tsx" .tsx rfl hboundaries).1.2 hfault, ?_⟩
  simp only [read, Parse.given, ofTree]
  rw [if_pos (by decide), htold]

end Module

end TagAlias
