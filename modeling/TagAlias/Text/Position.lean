import TagAlias.Text.Lines
/-!
# Positions in a source text

A position is a line and a column, both counted from one.  Lines end at line feeds, and a column counts characters, not
bytes.
-/
namespace TagAlias

structure Position where
  line : Nat
  column : Nat
  deriving DecidableEq, Repr

/-- The position of an offset.  Fails where the line cannot be read up to there. -/
def Position.ofOffset (src : Bytes) (offset : Nat) : Except Utf8.Fault Position :=
  (Utf8.decode (src.slice (Text.lineStart src offset) offset)).map
    (fun cs => ⟨Text.rowOf src offset + 1, cs.length + 1⟩)

end TagAlias
