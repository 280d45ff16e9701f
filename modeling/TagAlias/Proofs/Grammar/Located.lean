import TagAlias.Proofs.Alias.Reported
import TagAlias.Proofs.Grammar.SoundPrograms
/-!
# The grammar's trees can be relied on

Cuts of a text are boundaries of its bytes, so what sources are run with may be the grammar (`isSound_parse`).
-/
namespace TagAlias
namespace Grammar

theorem length_encode : ∀ cs : List Char, (Utf8.encode cs).length = byteLength cs
  | [] => rfl
  | c :: cs => by
    rw [Utf8.encode_cons, List.length_append, length_encode cs, byteLength_cons, String.length_utf8EncodeChar]

theorem isBoundary_of_isCut {text : List Char} {o : Nat} (h : IsCut text o) : (Utf8.encode text).IsBoundary o := by
  obtain ⟨before, ⟨rest, rfl⟩, rfl⟩ := h
  rw [Utf8.encode_append, ← length_encode]
  refine ⟨?_, before, ?_⟩
  · rw [List.length_append]; omega
  · rw [List.take_left]

theorem isSound_parse : Parse.IsSound parse where
  located _ _ _ hroot n hn :=
    have hwhole := allWhole_of_parse hroot n hn
    ⟨isBoundary_of_isCut hwhole.start, isBoundary_of_isCut hwhole.stop⟩
  filled _ _ _ hroot _ n hn hkind body hbody :=
    (allWhole_of_parse hroot n hn).body hkind body (Node.mem_children_of_child? hbody)
      (eq_of_beq (List.find?_some (p := fun c : Node => c.field == "body") hbody))

end Grammar
end TagAlias
