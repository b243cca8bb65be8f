import UnityCommon.Common.Text

/-!
# The string builder

`common/string_builder.c` over the allocation helpers of `common/common.h`. The
builder's buffer is a block of bytes that were written or not, and the two
global counters wrap as `size_t` does. Whether an allocation is granted is an
argument of the call that makes it; no call makes more than one.
-/

namespace UnityCommon.Common

/-- `SIZE_MAX` of a 64-bit host. -/
def sizeMax : ℕ := 2 ^ 64 - 1

/-! ## Tracked memory -/

/-- The bytes of an allocation; `none` where nothing was written yet. -/
abbrev Block := List (Option UInt8)

/-- A `memcpy` into a block. -/
def Block.store (block : Block) (at_ : ℕ) (bytes : Text) : Block :=
  block.take at_ ++ bytes.map some ++ block.drop (at_ + bytes.length)

/-- `g_allocated_bytes` and `g_allocations_count`. -/
structure MemTracking where
  allocatedBytes : UInt64
  allocationsCount : UInt64
deriving DecidableEq, Repr

namespace MemTracking

def add (mem : MemTracking) (size count : ℕ) : MemTracking :=
  ⟨mem.allocatedBytes + size.toUInt64, mem.allocationsCount + count.toUInt64⟩

def sub (mem : MemTracking) (size count : ℕ) : MemTracking :=
  ⟨mem.allocatedBytes - size.toUInt64, mem.allocationsCount - count.toUInt64⟩

end MemTracking

/-- The allocator's answer: half the address space is never granted. -/
def grants (granted : Bool) (size : ℕ) : Bool := granted && decide (size ≤ sizeMax / 2)

def memAlloc (granted : Bool) (size : ℕ) (mem : MemTracking) : Option Block × MemTracking :=
  if size = 0 then (none, mem)
  else if grants granted size then (some (List.replicate size none), mem.add size 1)
  else (none, mem)

def memRealloc (granted : Bool) (ptr : Option Block) (oldSize newSize : ℕ) (mem : MemTracking) :
    Option Block × MemTracking :=
  if newSize = 0 then (none, mem)
  else if grants granted newSize then
    let old := ptr.getD []
    (some (old.take newSize ++ List.replicate (newSize - old.length) none),
      let mem := if oldSize ≤ newSize then mem.add (newSize - oldSize) 0
        else mem.sub (oldSize - newSize) 0
      if ptr.isNone then mem.add 0 1 else mem)
  else (none, mem)

def memFree (ptr : Option Block) (size : ℕ) (mem : MemTracking) : MemTracking :=
  if ptr.isSome then mem.sub size 1 else mem

def memUntrackAllocation (size : ℕ) (mem : MemTracking) : MemTracking := mem.sub size 1

/-! ## The builder -/

structure StringBuilder where
  buf : Option Block
  len : ℕ
  capacity : ℕ
  failed : Bool
deriving DecidableEq, Repr

/-- A builder and the counters that its calls share with everything else. -/
structure SbState where
  sb : StringBuilder
  mem : MemTracking
deriving DecidableEq, Repr

def sbInit : StringBuilder := ⟨none, 0, 0, false⟩

namespace SbState

def fail (st : SbState) : SbState := { st with sb := { st.sb with failed := true } }

def store (st : SbState) (at_ : ℕ) (bytes : Text) : SbState :=
  { st with sb := { st.sb with buf := st.sb.buf.map fun block => block.store at_ bytes } }

def advance (st : SbState) (count : ℕ) : SbState :=
  { st with sb := { st.sb with len := st.sb.len + count } }

end SbState

/-- The doubling loop; `none` stands for a loop that does not end. -/
def growCapacity (required : ℕ) : ℕ → ℕ → Option ℕ
  | 0, _ => none
  | rounds + 1, newCap =>
      if newCap < required then
        if sizeMax / 2 < newCap then some required
        else growCapacity required rounds (newCap * 2)
      else some newCap

/-- The allocation of `sb_ensure_capacity`; a refused one leaves the builder. -/
def sbReserve (granted : Bool) (newCap : ℕ) (st : SbState) : SbState :=
  match st.sb.buf with
  | none =>
      match memAlloc granted newCap st.mem with
      | (some block, mem) =>
          ⟨{ st.sb with buf := some (block.store 0 [0]), capacity := newCap }, mem⟩
      | (none, mem) => ⟨st.sb, mem⟩
  | some block =>
      match memRealloc granted (some block) st.sb.capacity newCap st.mem with
      | (some block, mem) => ⟨{ st.sb with buf := some block, capacity := newCap }, mem⟩
      | (none, mem) => ⟨st.sb, mem⟩

def sbEnsureCapacity (granted : Bool) (additional : ℕ) (st : SbState) : Option (Bool × SbState) :=
  if st.sb.failed ∨ st.sb.len = sizeMax ∨ sizeMax - st.sb.len - 1 < additional then
    some (false, st.fail)
  else
    let required := st.sb.len + additional + 1
    if required ≤ st.sb.capacity then some (true, st)
    else
      let first := if st.sb.capacity = 0 then 32 else st.sb.capacity * 2 % 2 ^ 64
      (growCapacity required 65 first).map fun newCap =>
        let st := sbReserve granted newCap st
        if st.sb.buf.isNone ∨ st.sb.capacity < required then (false, st.fail) else (true, st)

/-- The copy and the terminator that follow a granted capacity. -/
def sbPut (bytes : Text) (st : SbState) : SbState :=
  ((st.store st.sb.len bytes).advance bytes.length).store (st.sb.len + bytes.length) [0]

def sbAppendLen (granted : Bool) (str : Option Text) (st : SbState) : Option SbState :=
  match str with
  | none => some st
  | some bytes =>
      if bytes.length = 0 then some st
      else (sbEnsureCapacity granted bytes.length st).map fun (ok, st) =>
        if ok then sbPut bytes st else st

def sbAppend (granted : Bool) (str : Option CString) (st : SbState) : Option SbState :=
  match str with
  | none => some st
  | some text => sbAppendLen granted (some text.bytes) st

def sbAppendChar (granted : Bool) (c : UInt8) (st : SbState) : Option SbState :=
  (sbEnsureCapacity granted 1 st).map fun (ok, st) => if ok then sbPut [c] st else st

/-- One call of `vsnprintf`: a text, or an encoding error after some bytes. -/
structure Formatting where
  bytes : Text
  error : Bool
deriving DecidableEq, Repr

/-- The returned `int`. -/
def Formatting.result (call : Formatting) : ℤ :=
  if call.error ∨ 2 ^ 31 - 1 < call.bytes.length then -1 else call.bytes.length

/-- What the call leaves in a destination of `limit + 1` bytes. -/
def Formatting.output (call : Formatting) (limit : ℕ) : Text :=
  if call.error then call.bytes.take (limit + 1) else call.bytes.take limit ++ [0]

/-- `sb_appendf`; the sizing call and the formatting call are given apart. -/
def sbAppendf (granted : Bool) (fmt : Option (Formatting × Formatting)) (st : SbState) :
    Option SbState :=
  if st.sb.failed then some st
  else
    match fmt with
    | none => some st.fail
    | some (sizing, writing) =>
        if sizing.result < 0 then some st.fail
        else if sizing.result = 0 then some st
        else
          let formattedLen := sizing.result.toNat
          (sbEnsureCapacity granted formattedLen st).map fun (ok, st) =>
            if ok then
              let st' := st.store st.sb.len (writing.output formattedLen)
              -- the sizing and formatting calls must agree
              if writing.result ≠ sizing.result then (st'.store st.sb.len [0]).fail
              else st'.advance formattedLen
            else st

def sbClear (st : SbState) : SbState :=
  { st with sb := { st.sb with len := 0, buf := st.sb.buf.map fun block => block.store 0 [0] } }

def sbFree (st : SbState) : SbState := ⟨sbInit, memFree st.sb.buf st.sb.capacity st.mem⟩

/-- The returned buffer and the builder after it. -/
def sbDetach (granted : Bool) (st : SbState) : Option Block × SbState :=
  match st.sb.buf with
  | none =>
      match memAlloc granted 1 st.mem with
      | (some res, mem) => (some (res.store 0 [0]), ⟨st.sb, mem⟩)
      | (none, mem) => (none, ⟨st.sb, mem⟩)
  | some res =>
      let actualSize := st.sb.len + 1
      match memRealloc granted (some res) st.sb.capacity actualSize st.mem with
      | (some res, mem) => (some res, ⟨sbInit, memUntrackAllocation actualSize mem⟩)
      | (none, mem) => (some res, ⟨sbInit, memUntrackAllocation st.sb.capacity mem⟩)

/-! ## Runs -/

inductive SbCall where
  | append (str : Option CString)
  | appendLen (str : Option Text)
  | appendChar (c : UInt8)
  | appendf (fmt : Option (Formatting × Formatting))
  | clear
  | free
  | detach
deriving DecidableEq, Repr

def sbStep (granted : Bool) (st : SbState) : SbCall → Option SbState
  | .append str => sbAppend granted str st
  | .appendLen str => sbAppendLen granted str st
  | .appendChar c => sbAppendChar granted c st
  | .appendf fmt => sbAppendf granted fmt st
  | .clear => some (sbClear st)
  | .free => some (sbFree st)
  | .detach => some (sbDetach granted st).2

namespace SbCall

/-- What a call adds where it succeeds. -/
def piece : SbCall → Text
  | .append str => (str.map CString.bytes).getD []
  | .appendLen str => str.getD []
  | .appendChar c => [c]
  | .appendf (some (sizing, writing)) => if sizing.result = 0 then [] else writing.bytes
  | _ => []

def resets : SbCall → Bool
  | .clear | .free | .detach => true
  | _ => false

/-- The concatenation of the pieces since the last reset, up to a failure. -/
def content (call : SbCall) (failed : Bool) (before : Text) : Text :=
  if call.resets then [] else if failed then before else before ++ call.piece

end SbCall

end UnityCommon.Common
