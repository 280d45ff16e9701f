import TagAlias.Proofs.Alias.Fidelity
import TagAlias.Proofs.Syntax.Faulty
/-!
# Texts are never refused

In a tree that a parser reads from a text all nodes begin and end between two characters (`Parse.IsSound`), so everything in it
can be read and placed, and declarations can be put in.  A text therefore is transformed or its failure is reported to the
reader (`reported_of_transform`).
-/
namespace TagAlias

open Utf8 (Encodes)

/-- What is relied on of a parser that sources are run with. -/
structure Parse.IsSound (parse : Parse) : Prop where
  /-- Nodes begin and end between two characters, also those at fault. -/
  located : ∀ d text root, parse d text = some root → ∀ n ∈ root.preorder,
    (Utf8.encode text).IsBoundary n.start ∧ (Utf8.encode text).IsBoundary n.stop
  /-- Where nothing is at fault, a method's body has braces at least. -/
  filled : ∀ d text root, parse d text = some root → root.hasFault = false → ∀ n ∈ root.preorder,
    n.kind ∈ Component.methodKinds → ∀ body, n.child? "body" = some body → body.children ≠ []

namespace Alias

theorem located_of_boundaries {src : Bytes} (hsrc : Encodes src) {n : Node} (hstart : Bytes.IsBoundary src n.start)
    (hstop : Bytes.IsBoundary src n.stop) : Survey.Located src n :=
  ⟨readable_of_boundaries hstart hstop, (ofOffset_ok_iff hsrc n.start).2 hstart.2⟩

/-! ## Failures of a text -/

theorem reported_of_collect {rule : Rule} {file : String} {methods : List (ComponentMethod × List TagReference)} {f : Failure}
    (h : collect rule file methods = .error f) : f.isReported = true := by
  obtain ⟨m, r, -, -, rfl⟩ := (collect_error_iff rule file methods f).1 h
  rfl

theorem reported_of_collectSurvey {rule : Rule} {file : String} {s : Survey} {f : Failure} (hfault : s.fault = none)
    (h : collectSurvey rule file s = .error f) : f.isReported = true := by
  unfold collectSurvey at h
  rw [hfault] at h
  cases hc : collect rule file s.methods with
  | error e =>
    rw [hc] at h
    cases h
    exact reported_of_collect hc
  | ok c => rw [hc] at h; cases h

theorem reported_of_ofValue {v : Value} {f : Failure} (h : Dialect.ofValue v = .error f) : f.isReported = true := by
  unfold Dialect.ofValue at h
  split at h
  · cases h
  · cases h; rfl

theorem reported_of_ofFile {file : String} {overrides : Dialect.Overrides} {d : Dialect} {f : Failure}
    (h : Dialect.ofFile file overrides d = .error f) : f.isReported = true := by
  unfold Dialect.ofFile at h
  dsimp only at h
  split at h
  · exact reported_of_ofValue h
  · cases h

section

variable {parse : Parse} (hparse : parse.IsSound) {text : String} {d : Dialect} {root : Node}
  (hroot : parse d text.toList = some root)

include hparse hroot

theorem reported_of_ofTree {file : String} {f : Failure} (h : Module.ofTree file d text root = .error f) :
    f.isReported = true := by
  unfold Module.ofTree at h
  split at h
  · cases h
    rename_i hfault
    obtain ⟨n, hn⟩ := Node.exists_firstFault hfault
    have hin : n ∈ root.preorder := List.mem_of_find?_eq_some ((Node.firstFault?_eq root).symm.trans hn)
    obtain ⟨hstart, hstop⟩ := hparse.located d _ root hroot n hin
    obtain ⟨before, -, told, -, -, -, hfailure⟩ := SyntaxFault.failure_eq file d hstart hstop
    rw [hn, Option.getD_some, hfailure]
    rfl
  · cases h

theorem fault_of_parse (hfault : root.hasFault = false) (stem : String) (asks : TagReference → Bool) :
    (Survey.ofTree (Bytes.ofString text) stem asks root).fault = none := by
  refine Survey.fault_eq_none (fun n hn => ?_) (fun p hp hmethod body hbody => ?_) asks
  · obtain ⟨hstart, hstop⟩ := hparse.located d _ root hroot n hn
    exact located_of_boundaries (encodes_ofString text) hstart hstop
  · obtain ⟨name, hname⟩ := hmethod
    have hin : p.node ∈ root.preorder := Node.mem_preorder_of_mem_places hp
    exact hparse.filled d _ root hroot hfault _ hin hname.kind body hbody

end

/-- **A text that is not transformed fails with a report.** -/
theorem reported_of_transform {parse : Parse} (hparse : parse.IsSound) {t : Transformer} {text file : String} {f : Failure}
    (h : t.transform parse text file none = .error f) : f.isReported = true := by
  unfold Transformer.transform at h
  cases hd : Dialect.resolve file t.overrides none with
  | error e =>
    rw [hd] at h
    cases h
    exact reported_of_ofFile hd
  | ok d =>
    simp only [bind, Except.bind, hd] at h
    cases hm : Module.read parse file d text with
    | error e =>
      simp only [hm] at h
      cases h
      unfold Module.read at hm
      split at hm
      · rename_i root hroot
        exact reported_of_ofTree hparse hroot hm
      · cases hm; rfl
    | ok m =>
      obtain ⟨root, hroot, hfault, rfl⟩ := read_eq_ok_iff.1 hm
      simp only [hm, Module.survey] at h
      cases hc : collectSurvey t.rule file (Survey.ofTree (Bytes.ofString text) t.rule.stem t.rule.asks root) with
      | error e =>
        rw [hc] at h
        cases h
        exact reported_of_collectSurvey (fault_of_parse hparse hroot hfault t.rule.stem t.rule.asks) hc
      | ok c =>
        obtain ⟨r, hr⟩ := exists_finish (hparse.located d _ root hroot) hc
        rw [hc] at h
        dsimp only at h
        rw [hr] at h
        cases h

end Alias
end TagAlias
