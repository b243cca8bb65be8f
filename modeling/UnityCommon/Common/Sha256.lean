import UnityCommon.Common.Text
import Mathlib.Data.List.Basic

/-!
# The SHA-256 context

`common/sha256.c`, the portable branch: a context that buffers up to one block,
updates it with any number of bytes and finishes it with the padding.
-/

namespace UnityCommon.Portable

def rotateRight (value : UInt32) (count : UInt32) : UInt32 :=
  (value >>> count) ||| (value <<< (32 - count))

def loadBe32 (data : Text) : UInt32 :=
  ((data.getD 0 0).toUInt32 <<< 24) ||| ((data.getD 1 0).toUInt32 <<< 16) |||
    ((data.getD 2 0).toUInt32 <<< 8) ||| (data.getD 3 0).toUInt32

def storeBe32 (value : UInt32) : Text :=
  [(value >>> 24).toUInt8, (value >>> 16).toUInt8, (value >>> 8).toUInt8, value.toUInt8]

/-- `data[7 - i]` is the byte at `i * 8`. -/
def storeBe64 (value : UInt64) : Text :=
  (List.range 8).reverse.map fun i => (value >>> (UInt64.ofNat (i * 8))).toUInt8

/-! ## The transformation -/

def sha256Constants : Vector UInt32 64 := #v[
  0x428a2f98, 0x71374491, 0xb5c0fbcf, 0xe9b5dba5,
  0x3956c25b, 0x59f111f1, 0x923f82a4, 0xab1c5ed5,
  0xd807aa98, 0x12835b01, 0x243185be, 0x550c7dc3,
  0x72be5d74, 0x80deb1fe, 0x9bdc06a7, 0xc19bf174,
  0xe49b69c1, 0xefbe4786, 0x0fc19dc6, 0x240ca1cc,
  0x2de92c6f, 0x4a7484aa, 0x5cb0a9dc, 0x76f988da,
  0x983e5152, 0xa831c66d, 0xb00327c8, 0xbf597fc7,
  0xc6e00bf3, 0xd5a79147, 0x06ca6351, 0x14292967,
  0x27b70a85, 0x2e1b2138, 0x4d2c6dfc, 0x53380d13,
  0x650a7354, 0x766a0abb, 0x81c2c92e, 0x92722c85,
  0xa2bfe8a1, 0xa81a664b, 0xc24b8b70, 0xc76c51a3,
  0xd192e819, 0xd6990624, 0xf40e3585, 0x106aa070,
  0x19a4c116, 0x1e376c08, 0x2748774c, 0x34b0bcb5,
  0x391c0cb3, 0x4ed8aa4a, 0x5b9cca4f, 0x682e6ff3,
  0x748f82ee, 0x78a5636f, 0x84c87814, 0x8cc70208,
  0x90befffa, 0xa4506ceb, 0xbef9a3f7, 0xc67178f2]

abbrev Sha256Block := Vector UInt8 64

abbrev Sha256State := Vector UInt32 8

/-- The first loop of `words`. -/
def loadWords (block : Sha256Block) : List UInt32 :=
  (List.range 16).map fun i => loadBe32 (block.toList.drop (i * 4))

/-- One round of the second loop: the word behind those that are there. -/
def nextWord (words : List UInt32) : UInt32 :=
  let i := words.length
  let x := words.getD (i - 15) 0
  let y := words.getD (i - 2) 0
  let small0 := rotateRight x 7 ^^^ rotateRight x 18 ^^^ (x >>> 3)
  let small1 := rotateRight y 17 ^^^ rotateRight y 19 ^^^ (y >>> 10)
  words.getD (i - 16) 0 + small0 + words.getD (i - 7) 0 + small1

def extendWords : ℕ → List UInt32 → List UInt32
  | 0, words => words
  | count + 1, words => extendWords count (words ++ [nextWord words])

/-- The local variables `a` to `h`. -/
structure Sha256Locals where
  a : UInt32
  b : UInt32
  c : UInt32
  d : UInt32
  e : UInt32
  f : UInt32
  g : UInt32
  h : UInt32
deriving DecidableEq, Repr

/-- One round of the compression loop, with its constant and its word. -/
def Sha256Locals.round (l : Sha256Locals) (step : UInt32 × UInt32) : Sha256Locals :=
  let big1 := rotateRight l.e 6 ^^^ rotateRight l.e 11 ^^^ rotateRight l.e 25
  let choose := (l.e &&& l.f) ^^^ (~~~l.e &&& l.g)
  let temporary1 := l.h + big1 + choose + step.1 + step.2
  let big0 := rotateRight l.a 2 ^^^ rotateRight l.a 13 ^^^ rotateRight l.a 22
  let majority := (l.a &&& l.b) ^^^ (l.a &&& l.c) ^^^ (l.b &&& l.c)
  let temporary2 := big0 + majority
  { h := l.g
    g := l.f
    f := l.e
    e := l.d + temporary1
    d := l.c
    c := l.b
    b := l.a
    a := temporary1 + temporary2 }

def sha256Transform (state : Sha256State) (block : Sha256Block) : Sha256State :=
  let words := extendWords 48 (loadWords block)
  let l := (sha256Constants.toList.zip words).foldl Sha256Locals.round
    ⟨state[0], state[1], state[2], state[3], state[4], state[5], state[6], state[7]⟩
  #v[state[0] + l.a, state[1] + l.b, state[2] + l.c, state[3] + l.d,
    state[4] + l.e, state[5] + l.f, state[6] + l.g, state[7] + l.h]

/-- The words of a state, in their order. -/
def Sha256Locals.ofState (state : Sha256State) : Sha256Locals :=
  ⟨state[0], state[1], state[2], state[3], state[4], state[5], state[6], state[7]⟩

/-! ## The context -/

/-- A context between calls: the block is never full. -/
structure CommonSha256Context where
  state : Sha256State
  totalSize : UInt64
  block : Sha256Block
  blockSize : ℕ
  blockSize_lt : blockSize < 64
deriving DecidableEq, Repr

/-- `memcpy(block + start, data, size)` and `memset`, inside the block. -/
def Sha256Block.write (block : Sha256Block) (start : ℕ) (data : Text) : Sha256Block :=
  Vector.ofFn fun i =>
    if start ≤ i.val ∧ i.val < start + data.length then data.getD (i.val - start) 0 else block[i]

def initialState : Sha256State := #v[
  0x6a09e667, 0xbb67ae85, 0x3c6ef372, 0xa54ff53a,
  0x510e527f, 0x9b05688c, 0x1f83d9ab, 0x5be0cd19]

/-- The bytes of the block are left as they are. -/
def commonSha256Init (block : Sha256Block) : CommonSha256Context where
  state := initialState
  totalSize := 0
  block := block
  blockSize := 0
  blockSize_lt := by decide

/-- The loop of `common_sha256_update`. -/
def updateLoop (context : CommonSha256Context) (data : Text) : CommonSha256Context :=
  if hdata : data.length = 0 then context
  else
    let available := 64 - context.blockSize
    let copySize := min data.length available
    let block := context.block.write context.blockSize (data.take copySize)
    if hfull : context.blockSize + copySize = 64 then
      updateLoop { context with
        state := sha256Transform context.state block
        block := block
        blockSize := 0
        blockSize_lt := by decide } (data.drop copySize)
    else
      updateLoop { context with
        block := block
        blockSize := context.blockSize + copySize
        blockSize_lt := by
          have := context.blockSize_lt
          omega } (data.drop copySize)
termination_by data.length
decreasing_by
  all_goals
    have := context.blockSize_lt
    rw [List.length_drop]
    omega

def commonSha256Update (context : CommonSha256Context) (data : Text) : CommonSha256Context :=
  updateLoop { context with totalSize := context.totalSize + UInt64.ofNat data.length } data

/-- The block with its first padding byte, and room for the length behind it. -/
def padBlock (context : CommonSha256Context) : Sha256State × Sha256Block × { n : ℕ // n ≤ 56 } :=
  let block := context.block.write context.blockSize [0x80]
  let blockSize := context.blockSize + 1
  if hroom : 56 < blockSize then
    let block := block.write blockSize (List.replicate (64 - blockSize) 0)
    (sha256Transform context.state block, block, ⟨0, by decide⟩)
  else (context.state, block, ⟨blockSize, Nat.le_of_not_lt hroom⟩)

/-- The digest, and what is left in the context. -/
def commonSha256Final (context : CommonSha256Context) : CommonSha256Context × Text :=
  let bitSize := context.totalSize * 8
  let (state, block, blockSize) := padBlock context
  let block := block.write blockSize (List.replicate (56 - blockSize) 0)
  let block := block.write 56 (storeBe64 bitSize)
  let state := sha256Transform state block
  ({ context with
      state := state
      block := block
      blockSize := blockSize
      blockSize_lt := Nat.lt_of_le_of_lt blockSize.2 (by decide) }, state.toList.flatMap storeBe32)

def commonSha256 (block : Sha256Block) (data : Text) : Text :=
  let context := commonSha256Init block
  let context := if 0 < data.length then commonSha256Update context data else context
  (commonSha256Final context).2

end UnityCommon.Portable
