import UnityCommon.Common.Text
import UnityCommon.Lib.Bytes

/-!
# Byte streams

`common/stream.c`. A read that fails leaves the stream where it is and every
caller gives up, so a read is a partial function from stream to value and
stream.
-/

namespace UnityCommon

structure ByteStream where
  data : Text
  position : ℕ
  bigEndian : Bool
deriving DecidableEq, Repr

namespace ByteStream

def remaining (stream : ByteStream) : ℕ := stream.data.length - stream.position

def advance (stream : ByteStream) (count : ℕ) : ByteStream :=
  { stream with position := stream.position + count }

def skip (stream : ByteStream) (count : ℕ) : Option ByteStream :=
  if stream.remaining < count then none else some (stream.advance count)

def align (stream : ByteStream) (alignment : ℕ) : Option ByteStream :=
  if alignment = 0 then some stream
  else
    let rem := stream.position % alignment
    if rem ≠ 0 then stream.skip (alignment - rem) else some stream

/-- The bytes at the position; the callers have checked that they exist. -/
def window (stream : ByteStream) (count : ℕ) : Text :=
  (stream.data.drop stream.position).take count

def readBytes (stream : ByteStream) (count : ℕ) : Option (Text × ByteStream) :=
  if stream.remaining < count then none
  else some (stream.window count, stream.advance count)

/-- A fixed-width number in the stream's byte order. -/
def readNat (stream : ByteStream) (width : ℕ) : Option (ℕ × ByteStream) :=
  (stream.readBytes width).map fun (raw, stream') =>
    (if stream.bigEndian then Bytes.ofBE raw else Bytes.ofLE raw, stream')

def readUInt8 (stream : ByteStream) : Option (UInt8 × ByteStream) :=
  (stream.readNat 1).map fun (n, s) => (n.toUInt8, s)

def readUInt16 (stream : ByteStream) : Option (UInt16 × ByteStream) :=
  (stream.readNat 2).map fun (n, s) => (n.toUInt16, s)

def readUInt32 (stream : ByteStream) : Option (UInt32 × ByteStream) :=
  (stream.readNat 4).map fun (n, s) => (n.toUInt32, s)

def readUInt64 (stream : ByteStream) : Option (UInt64 × ByteStream) :=
  (stream.readNat 8).map fun (n, s) => (n.toUInt64, s)

def readInt32 (stream : ByteStream) : Option (Int32 × ByteStream) :=
  stream.readUInt32.map fun (v, s) => (v.toInt32, s)

end ByteStream

end UnityCommon
