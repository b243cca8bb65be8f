import UnityCommon.Common.Text
import UnityCommon.Lib.Loop
import UnityCommon.Lib.SelfCopy

/-!
# The LZ4 block decoder

`decompress_block` with the source read as the bytes from `input_position` on
and the destination as the bytes below `output_position`: every write goes to
`output_position` and every read of the destination is below it. `none` is the
return value `-1`; `some out` is the return value `out.length` with `out` in the
destination.
-/

namespace UnityCommon.Lz4

def sizeMax : ℕ := 2 ^ 64 - 1
def intMax : ℕ := 2 ^ 31 - 1

def extendedLength : ℕ := 15
def minimumMatch : ℕ := 4
def finalLiterals : ℕ := 5
def lastMatchDistance : ℕ := 12

/-- The `do … while` loop of `read_length`. -/
def readExtensions (length : ℕ) : Text → Option (ℕ × Text)
  | [] => none
  | extension :: input =>
      if sizeMax - extension.toNat < length then none
      else if extension = 255 then readExtensions (length + extension.toNat) input
      else some (length + extension.toNat, input)

def readLength (length : ℕ) (input : Text) : Option (ℕ × Text) :=
  if length ≠ extendedLength then some (length, input) else readExtensions length input

structure Cursor where
  input : Text
  output : Text
  lastMatchStart : ℕ
  matched : Bool
deriving DecidableEq, Repr

/-- The end of the block after literals. -/
def finishBlock (capacity : ℕ) (exact : Bool) (cursor : Cursor) (literalLength : ℕ)
    (output : Text) : Option Text :=
  let finalSizeMatches := output.length = capacity
  let finalMatchWindowValid := cursor.matched = false ∨
    (finalLiterals ≤ literalLength ∧
      lastMatchDistance ≤ output.length - cursor.lastMatchStart)
  if exact ∧ (¬ finalSizeMatches ∨ ¬ finalMatchWindowValid) then none else some output

/-- The match half of a sequence. -/
def decodeMatch (capacity : ℕ) (token : UInt8) (input output : Text) :
    Loop.Outcome Cursor (Option Text) :=
  match input with
  | lo :: hi :: input =>
      let offset := lo.toNat + 256 * hi.toNat
      if offset = 0 ∨ output.length < offset then .done none
      else
        match readLength (token.toNat % 16) input with
        | none => .done none
        | some (length, input) =>
            if sizeMax - minimumMatch < length then .done none
            else
              let matchLength := length + minimumMatch
              if capacity - output.length < matchLength then .done none
              else .again ⟨input, SelfCopy.copy offset matchLength output, output.length, true⟩
  | _ => .done none

/-- One round of the main loop: one sequence. -/
def decodeSequence (capacity : ℕ) (exact : Bool) (cursor : Cursor) :
    Loop.Outcome Cursor (Option Text) :=
  match cursor.input with
  | [] => .done (if exact then none else some cursor.output)
  | token :: input =>
      match readLength (token.toNat / 16) input with
      | none => .done none
      | some (literalLength, input) =>
          if input.length < literalLength ∨
              capacity - cursor.output.length < literalLength then .done none
          else
            let output := cursor.output ++ input.take literalLength
            let input := input.drop literalLength
            if input = [] then .done (finishBlock capacity exact cursor literalLength output)
            else decodeMatch capacity token input output

/-- Every round consumes its token, so this fuel always suffices. -/
def decompressBlock (source : Text) (capacity : ℕ) (exact : Bool) : Option Text :=
  (Loop.run (decodeSequence capacity exact) (source.length + 1)
    ⟨source, [], 0, false⟩).getD none

def lz4DecompressSafe (source : Text) (capacity : ℕ) : Option Text :=
  decompressBlock source capacity false

def lz4DecompressExact (source : Text) (capacity : ℕ) : Option Text :=
  decompressBlock source capacity true

example : lz4DecompressSafe [0x12, 0x61, 0x01, 0x00, 0x10, 0x62] 16 =
    some (ascii "aaaaaaab") := by
  decide

end UnityCommon.Lz4
