import UnityCommon.Lib.Bytes
import UnityCommon.Lib.Blocks
import Mathlib.Data.Nat.NthRoot.Defs
import Mathlib.Data.Nat.Prime.Defs

/-!
# SHA-256

The hash function of FIPS 180-4 for messages of whole bytes: the word functions,
the constants as fractions of roots of the first primes, the message schedule as
a recurrence, the compression of a block, the padding and the digest.
-/

namespace Sha256

abbrev Word := UInt32

/-! ## The word functions -/

def rotr (n : ℕ) (x : Word) : Word := ⟨x.toBitVec.rotateRight n⟩

def shr (n : ℕ) (x : Word) : Word := ⟨x.toBitVec >>> n⟩

def ch (x y z : Word) : Word := (x &&& y) ^^^ (~~~x &&& z)

def maj (x y z : Word) : Word := (x &&& y) ^^^ (x &&& z) ^^^ (y &&& z)

/-- `Σ₀`. -/
def bigSigma0 (x : Word) : Word := rotr 2 x ^^^ rotr 13 x ^^^ rotr 22 x

/-- `Σ₁`. -/
def bigSigma1 (x : Word) : Word := rotr 6 x ^^^ rotr 11 x ^^^ rotr 25 x

/-- `σ₀`. -/
def smallSigma0 (x : Word) : Word := rotr 7 x ^^^ rotr 18 x ^^^ shr 3 x

/-- `σ₁`. -/
def smallSigma1 (x : Word) : Word := rotr 17 x ^^^ rotr 19 x ^^^ shr 10 x

/-! ## The constants -/

/-- The first sixty-four primes. -/
def primes : List ℕ := (List.range 312).filter Nat.Prime

/-- The first thirty-two bits of the fractional part of a root. -/
def rootFraction (degree p : ℕ) : Word := UInt32.ofNat (Nat.nthRoot degree (p * 2 ^ (32 * degree)))

/-- `K`: of the cube roots of the first sixty-four primes. -/
def constants : List Word := primes.map (rootFraction 3)

/-- A hash value, and the working variables. -/
@[ext] structure Registers where
  a : Word
  b : Word
  c : Word
  d : Word
  e : Word
  f : Word
  g : Word
  h : Word
deriving DecidableEq, Repr

/-- `H⁽⁰⁾`: of the square roots of the first eight primes. -/
def initial : Registers where
  a := rootFraction 2 2
  b := rootFraction 2 3
  c := rootFraction 2 5
  d := rootFraction 2 7
  e := rootFraction 2 11
  f := rootFraction 2 13
  g := rootFraction 2 17
  h := rootFraction 2 19

/-! ## One block -/

/-- The bytes of a block as sixteen big-endian words. -/
def blockWord (block : List UInt8) (t : ℕ) : Word :=
  UInt32.ofNat (Bytes.ofBE ((block.drop (4 * t)).take 4))

/-- The message schedule. -/
def schedule (block : List UInt8) (t : ℕ) : Word :=
  if _hinput : t < 16 then blockWord block t
  else smallSigma1 (schedule block (t - 2)) + schedule block (t - 7) +
    smallSigma0 (schedule block (t - 15)) + schedule block (t - 16)

/-- One round on the working variables. -/
def round (k w : Word) (r : Registers) : Registers :=
  let t₁ := r.h + bigSigma1 r.e + ch r.e r.f r.g + k + w
  let t₂ := bigSigma0 r.a + maj r.a r.b r.c
  { a := t₁ + t₂
    b := r.a
    c := r.b
    d := r.c
    e := r.d + t₁
    f := r.e
    g := r.f
    h := r.g }

def Registers.add (r s : Registers) : Registers where
  a := r.a + s.a
  b := r.b + s.b
  c := r.c + s.c
  d := r.d + s.d
  e := r.e + s.e
  f := r.f + s.f
  g := r.g + s.g
  h := r.h + s.h

/-- The next hash value. -/
def compress (hash : Registers) (block : List UInt8) : Registers :=
  hash.add <| (List.range 64).foldl
    (fun r t => round (constants.getD t 0) (schedule block t) r) hash

/-! ## The message -/

/-- The zero bytes of the padding: with the byte `0x80`, up to 56 modulo 64. -/
def zeros (length : ℕ) : ℕ := (119 - length % 64) % 64

/-- What follows a message of so many bytes. -/
def padding (length : ℕ) : List UInt8 :=
  0x80 :: List.replicate (zeros length) 0 ++ Bytes.toBE 8 (8 * length)

def pad (message : List UInt8) : List UInt8 := message ++ padding message.length

/-- The hash value after the whole blocks of a string. -/
def hashBlocks (bytes : List UInt8) : Registers := (Blocks.blocks 64 bytes).foldl compress initial

def Registers.words (r : Registers) : List Word := [r.a, r.b, r.c, r.d, r.e, r.f, r.g, r.h]

/-- **The digest of a message.** -/
def digest (message : List UInt8) : List UInt8 :=
  (hashBlocks (pad message)).words.flatMap fun word => Bytes.toBE 4 word.toNat

end Sha256
