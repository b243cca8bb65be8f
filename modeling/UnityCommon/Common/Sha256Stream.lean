import UnityCommon.Common.Sha256Block

/-!
# Streaming SHA-256

However a message is cut into chunks, a context that has absorbed them holds the
hash value of the whole blocks and the bytes behind them, and finishing it gives
the digest of the message.
-/

namespace UnityCommon.Portable

open Sha256 (hashBlocks)

/-! ## Writing into the block -/

theorem getElem_write (block : Sha256Block) (start : ℕ) (data : Text) {i : ℕ} (hi : i < 64) :
    (block.write start data)[i] =
      if start ≤ i ∧ i < start + data.length then data.getD (i - start) 0 else block[i] := by
  rw [Sha256Block.write, Vector.getElem_ofFn]
  rfl

/-- What was written, behind what was there. -/
theorem take_write (block : Sha256Block) (start : ℕ) (data : Text)
    (hfits : start + data.length ≤ 64) :
    (block.write start data).toList.take (start + data.length) =
      block.toList.take start ++ data := by
  have htake : (block.toList.take start).length = start := by
    rw [List.length_take, Vector.length_toList]
    omega
  have hwhole : ((block.write start data).toList.take (start + data.length)).length =
      start + data.length := by
    rw [List.length_take, Vector.length_toList]
    omega
  refine List.ext_getElem (by rw [hwhole, List.length_append, htake]) fun i hi _ => ?_
  have hbound : i < start + data.length := hwhole ▸ hi
  rw [List.getElem_take, Vector.getElem_toList, getElem_write block start data (by omega)]
  by_cases hstart : start ≤ i
  · rw [if_pos ⟨hstart, hbound⟩, List.getElem_append_right (by omega)]
    simp only [htake]
    exact List.getD_eq_getElem _ _ (by omega)
  · rw [if_neg (by omega), List.getElem_append_left (by omega), List.getElem_take,
      Vector.getElem_toList]

/-- The last write fills the block. -/
theorem toList_write (block : Sha256Block) {start : ℕ} {data : Text}
    (hfull : start + data.length = 64) :
    (block.write start data).toList = block.toList.take start ++ data := by
  have htake := take_write block start data (Nat.le_of_eq hfull)
  rwa [hfull, List.take_of_length_le (Nat.le_of_eq (Vector.length_toList))] at htake

/-! ## What a context has absorbed -/

structure Absorbed (message : Text) (context : CommonSha256Context) : Prop where
  state : registersOf context.state = hashBlocks message
  buffer : context.block.toList.take context.blockSize = Blocks.rest 64 message

theorem Absorbed.blockSize {message : Text} {context : CommonSha256Context}
    (h : Absorbed message context) : context.blockSize = message.length % 64 := by
  have hlt := context.blockSize_lt
  have hlength := congrArg List.length h.buffer
  rw [Blocks.length_rest, List.length_take, Vector.length_toList] at hlength
  omega

theorem absorbed_init (block : Sha256Block) : Absorbed [] (commonSha256Init block) :=
  ⟨registersOf_initialState, rfl⟩

theorem hashBlocks_append (message more : Text) :
    hashBlocks (message ++ more) =
      (Blocks.blocks 64 (Blocks.rest 64 message ++ more)).foldl Sha256.compress
        (hashBlocks message) := by
  rw [hashBlocks, (Blocks.blocks_append (by decide) message more).1, List.foldl_append]
  rfl

/-- **A block that is filled is compressed.** -/
theorem Absorbed.full {message chunk : Text} {context context' : CommonSha256Context}
    (h : Absorbed message context) (hfull : context.blockSize + chunk.length = 64)
    (hstate : context'.state =
      sha256Transform context.state (context.block.write context.blockSize chunk))
    (hsize : context'.blockSize = 0) : Absorbed (message ++ chunk) context' := by
  have hblock : (Blocks.rest 64 message ++ chunk).length = 64 := by
    rw [List.length_append, Blocks.length_rest, ← h.blockSize, hfull]
  obtain ⟨hblocks, hrest⟩ := Blocks.blocks_self (by decide) hblock
  constructor
  · rw [hstate, registersOf_transform, toList_write _ hfull, h.buffer, h.state, hashBlocks_append,
      hblocks]
    rfl
  · rw [hsize, (Blocks.blocks_append (by decide) message chunk).2, hrest]
    rfl

/-- Fewer bytes are kept behind those that are there. -/
theorem Absorbed.short {message chunk : Text} {context context' : CommonSha256Context}
    (h : Absorbed message context) (hshort : context.blockSize + chunk.length < 64)
    (hstate : context'.state = context.state)
    (hblock : context'.block = context.block.write context.blockSize chunk)
    (hsize : context'.blockSize = context.blockSize + chunk.length) :
    Absorbed (message ++ chunk) context' := by
  have hlength : (Blocks.rest 64 message ++ chunk).length < 64 := by
    rw [List.length_append, Blocks.length_rest, ← h.blockSize]
    exact hshort
  constructor
  · rw [hstate, h.state, hashBlocks_append, Blocks.blocks_of_lt hlength]
    rfl
  · rw [hblock, hsize, take_write _ _ _ (Nat.le_of_lt hshort), h.buffer,
      (Blocks.blocks_append (by decide) message chunk).2, Blocks.rest_of_lt hlength]

/-- **The loop absorbs its data**, one block at a time. -/
theorem absorbed_updateLoop (context : CommonSha256Context) (data : Text) :
    (∀ message, Absorbed message context → Absorbed (message ++ data) (updateLoop context data)) ∧
      (updateLoop context data).totalSize = context.totalSize := by
  induction context, data using updateLoop.induct with
  | case1 context data hdata =>
      rw [updateLoop, dif_pos hdata, List.eq_nil_of_length_eq_zero hdata]
      simp
  | case2 context data hdata available copySize block hfull ih =>
      have hstep : updateLoop context data =
          updateLoop { context with
            state := sha256Transform context.state block
            block := block
            blockSize := 0
            blockSize_lt := by decide } (data.drop copySize) := by
        rw [updateLoop, dif_neg hdata]
        exact dif_pos hfull
      rw [hstep]
      have hchunk : (data.take copySize).length = copySize := by
        rw [List.length_take]
        exact Nat.min_eq_left (Nat.min_le_left _ _)
      refine ⟨fun message h => ?_, ih.2⟩
      -- the block is full and is compressed
      have hnext := ih.1 (message ++ data.take copySize)
        (h.full (by rw [hchunk]; exact hfull) rfl rfl)
      rwa [List.append_assoc, List.take_append_drop] at hnext
  | case3 context data hdata available copySize block hfull ih =>
      have hlt := context.blockSize_lt
      have hstep : updateLoop context data =
          updateLoop { context with
            block := block
            blockSize := context.blockSize + copySize
            blockSize_lt := by omega } (data.drop copySize) := by
        rw [updateLoop, dif_neg hdata]
        exact dif_neg hfull
      rw [hstep]
      have hchunk : (data.take copySize).length = copySize := by
        rw [List.length_take]
        exact Nat.min_eq_left (Nat.min_le_left _ _)
      refine ⟨fun message h => ?_, ih.2⟩
      have hnext := ih.1 (message ++ data.take copySize)
        (h.short (by rw [hchunk]; omega) rfl rfl (by rw [hchunk]))
      rwa [List.append_assoc, List.take_append_drop] at hnext

theorem absorbed_update {message : Text} {context : CommonSha256Context}
    (h : Absorbed message context) (data : Text) :
    Absorbed (message ++ data) (commonSha256Update context data) ∧
      (commonSha256Update context data).totalSize =
        context.totalSize + UInt64.ofNat data.length := by
  have hloop := absorbed_updateLoop
    { context with totalSize := context.totalSize + UInt64.ofNat data.length } data
  exact ⟨hloop.1 message ⟨h.state, h.buffer⟩, hloop.2⟩

/-- **Chunks are absorbed as their concatenation.** -/
theorem absorbed_updates (chunks : List Text) {message : Text} {context : CommonSha256Context}
    (h : Absorbed message context) (hsize : context.totalSize = UInt64.ofNat message.length) :
    Absorbed (message ++ chunks.flatten) (chunks.foldl commonSha256Update context) ∧
      (chunks.foldl commonSha256Update context).totalSize =
        UInt64.ofNat (message ++ chunks.flatten).length := by
  induction chunks generalizing message context with
  | nil =>
      rw [List.flatten_nil, List.append_nil]
      exact ⟨h, hsize⟩
  | cons data chunks ih =>
      obtain ⟨hdata, htotal⟩ := absorbed_update h data
      rw [List.flatten_cons, ← List.append_assoc]
      refine ih hdata ?_
      rw [htotal, hsize, List.length_append, UInt64.ofNat_add]

/-! ## The padding -/

/-- The two routes of the padding: behind at most 55 bytes it fits the block,
behind more it fills it and takes another. -/
theorem zeros_of_short {length : ℕ} (h : length % 64 ≤ 55) :
    Sha256.zeros length = 56 - (length % 64 + 1) := by
  unfold Sha256.zeros
  omega

theorem zeros_of_long {length : ℕ} (h : 55 < length % 64) :
    Sha256.zeros length = (64 - (length % 64 + 1)) + 56 := by
  have := Nat.mod_lt length (by decide : 0 < 64)
  unfold Sha256.zeros
  omega

variable {message : Text} {context : CommonSha256Context}

/-- The last block: what is in the block, zeros up to the length, and the length. -/
def lastBlock (padded : Sha256State × Sha256Block × { n : ℕ // n ≤ 56 }) (length : ℕ) : Text :=
  padded.2.1.toList.take padded.2.2 ++ List.replicate (56 - padded.2.2.val) 0 ++
    Bytes.toBE 8 (8 * length)

/-- The bytes in the block with the first byte of the padding. -/
theorem take_mark (h : Absorbed message context) :
    (context.block.write context.blockSize [0x80]).toList.take (context.blockSize + 1) =
      Blocks.rest 64 message ++ [0x80] := by
  have hlt := context.blockSize_lt
  have hmark := take_write context.block context.blockSize [0x80] (Nat.succ_le_of_lt hlt)
  rwa [h.buffer] at hmark

/-- **Either route of the padding leaves one block to compress.** -/
theorem hashBlocks_pad (h : Absorbed message context) :
    hashBlocks (Sha256.pad message) =
      Sha256.compress (registersOf (padBlock context).1)
        (lastBlock (padBlock context) message.length) := by
  have hsize := h.blockSize
  have hlt := context.blockSize_lt
  have hmark := take_mark h
  have hrest : (Blocks.rest 64 message).length = context.blockSize := by
    rw [Blocks.length_rest, hsize]
  rw [Sha256.pad, hashBlocks_append, ← h.state]
  by_cases hroom : 56 < context.blockSize + 1
  · have hpad : padBlock context =
        (sha256Transform context.state ((context.block.write context.blockSize [0x80]).write
            (context.blockSize + 1) (List.replicate (64 - (context.blockSize + 1)) 0)),
          (context.block.write context.blockSize [0x80]).write (context.blockSize + 1)
            (List.replicate (64 - (context.blockSize + 1)) 0), ⟨0, by decide⟩) := dif_pos hroom
    have hfull : ((context.block.write context.blockSize [0x80]).write (context.blockSize + 1)
        (List.replicate (64 - (context.blockSize + 1)) 0)).toList =
        Blocks.rest 64 message ++ [0x80] ++ List.replicate (64 - (context.blockSize + 1)) 0 := by
      rw [toList_write _ (by rw [List.length_replicate]; omega), hmark]
    have hfirst : (Blocks.rest 64 message ++ [0x80] ++
        List.replicate (64 - (context.blockSize + 1)) (0 : UInt8)).length = 64 := by
      simp only [List.length_append, List.length_singleton, List.length_replicate, hrest]
      omega
    have hsecond : (List.replicate 56 (0 : UInt8) ++
        Bytes.toBE 8 (8 * message.length)).length = 64 := by
      rw [List.length_append, List.length_replicate, Bytes.length_toBE]
    have hsplit : Blocks.rest 64 message ++ Sha256.padding message.length =
        Blocks.rest 64 message ++ [0x80] ++ List.replicate (64 - (context.blockSize + 1)) 0 ++
          (List.replicate 56 0 ++ Bytes.toBE 8 (8 * message.length)) := by
      rw [Sha256.padding, zeros_of_long (by omega), ← hsize, List.replicate_add]
      simp only [List.append_assoc, List.nil_append, List.cons_append]
    rw [hsplit, Blocks.blocks_append_of_length (by decide) hfirst,
      (Blocks.blocks_self (by decide) hsecond).1, hpad, lastBlock, registersOf_transform, hfull]
    rfl
  -- the length fits behind the mark
  · have hpad : padBlock context = (context.state, context.block.write context.blockSize [0x80],
        ⟨context.blockSize + 1, Nat.le_of_not_lt hroom⟩) := dif_neg hroom
    have hsplit : Blocks.rest 64 message ++ Sha256.padding message.length =
        Blocks.rest 64 message ++ [0x80] ++ List.replicate (56 - (context.blockSize + 1)) 0 ++
          Bytes.toBE 8 (8 * message.length) := by
      rw [Sha256.padding, zeros_of_short (by omega), ← hsize]
      simp only [List.append_assoc, List.nil_append, List.cons_append]
    have hone : (Blocks.rest 64 message ++ Sha256.padding message.length).length = 64 := by
      rw [hsplit]
      simp only [List.length_append, List.length_singleton, List.length_replicate, hrest,
        Bytes.length_toBE]
      omega
    rw [(Blocks.blocks_self (by decide) hone).1, hpad, lastBlock, hmark, hsplit]
    rfl

theorem toList_state (state : Sha256State) : state.toList = (registersOf state).words := by
  obtain ⟨⟨words⟩, hwords⟩ := state
  match words, hwords with
  | [_, _, _, _, _, _, _, _], _ => rfl

/-- The bit length is not reduced. -/
theorem toNat_bitSize {length : ℕ} (hlength : length < 2 ^ 61) :
    (UInt64.ofNat length * 8).toNat = 8 * length := by
  rw [UInt64.toNat_mul, UInt64.toNat_ofNat']
  show length % 2 ^ 64 * 8 % 2 ^ 64 = _
  omega

/-- **Finishing a context gives the digest** of what it has absorbed. -/
theorem final_of_absorbed (h : Absorbed message context)
    (hsize : context.totalSize = UInt64.ofNat message.length) (hlength : message.length < 2 ^ 61) :
    (commonSha256Final context).2 = Sha256.digest message := by
  have hroom := (padBlock context).2.2.2
  have hzeros := take_write (padBlock context).2.1 (padBlock context).2.2
    (List.replicate (56 - (padBlock context).2.2.val) 0)
    (by rw [List.length_replicate]; omega)
  rw [List.length_replicate, Nat.add_sub_cancel' hroom] at hzeros
  have hblock : (((padBlock context).2.1.write (padBlock context).2.2
      (List.replicate (56 - (padBlock context).2.2.val) 0)).write 56
        (storeBe64 (context.totalSize * 8))).toList =
      lastBlock (padBlock context) message.length := by
    have hstore : storeBe64 (context.totalSize * 8) = Bytes.toBE 8 (8 * message.length) := by
      rw [storeBe64_eq, hsize, toNat_bitSize hlength]
    rw [hstore, toList_write _ (by rw [Bytes.length_toBE]), hzeros, lastBlock]
  have hdigest : (commonSha256Final context).2 =
      (sha256Transform (padBlock context).1 (((padBlock context).2.1.write (padBlock context).2.2
        (List.replicate (56 - (padBlock context).2.2.val) 0)).write 56
          (storeBe64 (context.totalSize * 8)))).toList.flatMap storeBe32 := rfl
  rw [hdigest, toList_state, registersOf_transform, hblock, ← hashBlocks_pad h, Sha256.digest]
  exact List.flatMap_congr fun word _ => storeBe32_eq word

/-- The one-shot digest. -/
theorem commonSha256_eq (block : Sha256Block) (data : Text) (hlength : data.length < 2 ^ 61) :
    commonSha256 block data = Sha256.digest data := by
  have hupdate : commonSha256 block data =
      (commonSha256Final (commonSha256Update (commonSha256Init block) data)).2 := by
    rw [commonSha256]
    split
    · rfl
    · rename_i hempty
      obtain rfl : data = [] := List.eq_nil_of_length_eq_zero (by omega)
      rw [commonSha256Update, updateLoop, dif_pos List.length_nil]
      rfl
  obtain ⟨habsorbed, hsize⟩ := absorbed_updates [data] (absorbed_init block) rfl
  rw [List.flatten_singleton] at habsorbed hsize
  rw [hupdate]
  exact final_of_absorbed habsorbed hsize hlength

/-- **Streaming SHA-256.** For every message shorter than 2^61 bytes and every
way of cutting it into chunks, the context is never left with a full block, and
its digest is the digest of FIPS 180-4, as is that of the one-shot function. -/
theorem sha256_streaming (chunks : List Text) (hlength : chunks.flatten.length < 2 ^ 61)
    (block block' : Sha256Block) :
    let context := chunks.foldl commonSha256Update (commonSha256Init block)
    context.blockSize < 64 ∧ (commonSha256Final context).2 = Sha256.digest chunks.flatten ∧
      (commonSha256Final context).2 = commonSha256 block' chunks.flatten := by
  intro context
  obtain ⟨habsorbed, hsize⟩ := absorbed_updates chunks (absorbed_init block) rfl
  rw [List.nil_append] at habsorbed hsize
  have hdigest := final_of_absorbed habsorbed hsize hlength
  exact ⟨context.blockSize_lt, hdigest,
    hdigest.trans (commonSha256_eq block' chunks.flatten hlength).symm⟩

theorem sha256_streaming_abc :
    (commonSha256Final ([[97], [], [98, 99]].foldl commonSha256Update
      (commonSha256Init (Vector.replicate 64 0)))).2 = Sha256.digest [97, 98, 99] ∧
    Sha256.digest [97, 98, 99] =
      [0xba, 0x78, 0x16, 0xbf, 0x8f, 0x01, 0xcf, 0xea, 0x41, 0x41, 0x40, 0xde, 0x5d, 0xae, 0x22,
        0x23, 0xb0, 0x03, 0x61, 0xa3, 0x96, 0x17, 0x7a, 0x9c, 0xb4, 0x10, 0xff, 0x61, 0xf2, 0x00,
        0x15, 0xad] := by
  have hstream := sha256_streaming [[97], [], [98, 99]] (by decide) (Vector.replicate 64 0)
    (Vector.replicate 64 0)
  refine ⟨hstream.2.1, ?_⟩
  rw [← commonSha256_eq (Vector.replicate 64 0) [97, 98, 99] (by decide)]
  decide +kernel

end UnityCommon.Portable
