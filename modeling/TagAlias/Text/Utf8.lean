/-!
# UTF-8, with the place and the reason of a fault

Source text is spliced as bytes and read as characters.  `encode` goes one way; `decode` goes back and accepts
well-formed UTF-8 only: no overlong form, no surrogate, nothing above U+10FFFF.  A refusal names the bytes that cannot
be read, from the lead byte up to the first byte that does not continue it, and why.
-/
namespace TagAlias

/-- Text as the bytes of its UTF-8 encoding. -/
abbrev Bytes := List UInt8

namespace Utf8

/-- Why a run of bytes is no character. -/
inductive Reason where
  /-- The first byte begins no character. -/
  | badStart
  /-- A byte inside the character does not continue it. -/
  | badContinuation
  /-- The text ends inside the character. -/
  | truncated
  deriving DecidableEq, Repr

/-- The bytes `[start, stop)`, of which `first` is the first, are no character. -/
structure Fault where
  first : UInt8
  start : Nat
  stop : Nat
  reason : Reason
  deriving DecidableEq, Repr

def encode (cs : List Char) : Bytes := cs.flatMap String.utf8EncodeChar

def isTail (b : UInt8) : Bool := 0x80 ≤ b && b ≤ 0xBF

/-- Whether `b` may be the second byte after the lead byte `a`: the four narrow cases keep out overlong forms,
surrogates and numbers above U+10FFFF. -/
def isSecond (a b : UInt8) : Bool :=
  isTail b && !(a == 0xE0 && b < 0xA0) && !(a == 0xED && 0x9F < b)
    && !(a == 0xF0 && b < 0x90) && !(a == 0xF4 && 0x8F < b)

def low (b : UInt8) : Nat := b.toNat % 64

def two (a b : UInt8) : Char := Char.ofNat (a.toNat % 32 * 64 + low b)

def three (a b c : UInt8) : Char := Char.ofNat (a.toNat % 16 * 4096 + low b * 64 + low c)

def four (a b c d : UInt8) : Char :=
  Char.ofNat (a.toNat % 8 * 262144 + low b * 4096 + low c * 64 + low d)

/-- Reads bytes that begin at offset `pos` of the whole text. -/
def decodeFrom (pos : Nat) : Bytes → Except Fault (List Char)
  | [] => .ok []
  | a :: r =>
    if a < 0x80 then (decodeFrom (pos + 1) r).map (Char.ofNat a.toNat :: ·)
    else if a < 0xC2 || 0xF4 < a then .error ⟨a, pos, pos + 1, .badStart⟩
    else match r with
      | [] => .error ⟨a, pos, pos + 1, .truncated⟩
      | b :: r =>
        if !isSecond a b then .error ⟨a, pos, pos + 1, .badContinuation⟩
        else if a < 0xE0 then (decodeFrom (pos + 2) r).map (two a b :: ·)
        else match r with
          | [] => .error ⟨a, pos, pos + 2, .truncated⟩
          | c :: r =>
            if !isTail c then .error ⟨a, pos, pos + 2, .badContinuation⟩
            else if a < 0xF0 then (decodeFrom (pos + 3) r).map (three a b c :: ·)
            else match r with
              | [] => .error ⟨a, pos, pos + 3, .truncated⟩
              | d :: r =>
                if !isTail d then .error ⟨a, pos, pos + 3, .badContinuation⟩
                else (decodeFrom (pos + 4) r).map (four a b c d :: ·)

def decode (bs : Bytes) : Except Fault (List Char) := decodeFrom 0 bs

def Reason.message : Reason → String
  | .badStart => "invalid start byte"
  | .badContinuation => "invalid continuation byte"
  | .truncated => "unexpected end of data"

def hexDigit (n : Nat) : Char := (Nat.digitChar (n % 16))

/-- One byte is named by its value, a longer run by its first and last position. -/
def Fault.message (f : Fault) : String :=
  let place :=
    if f.stop ≤ f.start + 1 then
      "byte 0x" ++ String.ofList [hexDigit (f.first.toNat / 16), hexDigit f.first.toNat]
        ++ " in position " ++ toString f.start
    else "bytes in position " ++ toString f.start ++ "-" ++ toString (f.stop - 1)
  "'utf-8' codec can't decode " ++ place ++ ": " ++ f.reason.message

end Utf8

/-- Bytes that encode a text. -/
def Utf8.Encodes (bs : Bytes) : Prop := ∃ cs, Utf8.encode cs = bs

/-- An offset of a text at which a character begins or the text ends. -/
def Bytes.IsBoundary (src : Bytes) (o : Nat) : Prop := o ≤ src.length ∧ Utf8.Encodes (src.take o)

/-- The bytes from offset `start` up to offset `stop`, as far as there are any. -/
def Bytes.slice (src : Bytes) (start stop : Nat) : Bytes := (src.drop start).take (stop - start)

def Bytes.ofString (s : String) : Bytes := Utf8.encode s.toList

def Bytes.toString? (bs : Bytes) : Except Utf8.Fault String := (Utf8.decode bs).map String.ofList

end TagAlias
