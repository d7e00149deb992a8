import CseLab.FileSystem.Handlers

/-! Writing a file that has an index block once more with the same number of
blocks. The bound of the freeing loop is `limit - block_num` on `uint32_t`
values, which here is negative: the loop runs through almost every 32-bit
number and rewrites the first 32 bytes of every block from the bitmap on. -/

namespace CseLab.FileSystem

open ByteMemory

def flag (byte : UInt8) : UInt8 := if byte = 0 then 0 else 1

theorem flag_flag (byte : UInt8) : flag (flag byte) = flag byte := by
  unfold flag
  split <;> rfl

theorem freeAll_apply (d : Disk) (ids : List Nat) (b address : Nat) :
    (freeAll d ids).blocks b address =
      if b < 32768 ∧ ∃ id ∈ ids, b = bblock id ∧ address = id % 256 / 8 then
        flag (d.blocks b address)
      else d.blocks b address := by
  induction ids generalizing d with
  | nil =>
      rw [if_neg]
      · rfl
      · rintro ⟨-, id, member, -⟩
        cases member
  | cons id rest ih =>
      change (freeAll (freeBlock d id) rest).blocks b address = _
      rw [ih, freeBlock_apply]
      change (if _ then flag (if _ then flag (d.blocks b address) else d.blocks b address)
        else if _ then flag (d.blocks b address) else d.blocks b address) = _
      by_cases onDisk : b < 32768
      · by_cases here : b = bblock id ∧ address = id % 256 / 8
        · have hits : b < 32768 ∧ b = bblock id ∧ address = id % 256 / 8 := ⟨onDisk, here⟩
          rw [if_pos hits,
            flag_flag, ite_self,
            if_pos (show b < 32768 ∧ ∃ other ∈ id :: rest,
              b = bblock other ∧ address = other % 256 / 8 from
              ⟨onDisk, id, List.mem_cons_self, here⟩)]
        · rw [if_neg (show ¬(b < 32768 ∧ b = bblock id ∧ address = id % 256 / 8) from
            fun all => here all.2)]
          congr 1
          apply propext
          constructor
          · rintro ⟨-, other, member, hit⟩
            exact ⟨onDisk, other, List.mem_cons_of_mem id member, hit⟩
          · rintro ⟨-, other, member, hit⟩
            rcases List.mem_cons.mp member with rfl | later
            · exact absurd hit here
            · exact ⟨onDisk, other, later, hit⟩
      · rw [if_neg (fun all => onDisk all.1), if_neg (fun all => onDisk all.1),
          if_neg (fun all => onDisk all.1)]

/-- The numbers the freeing loop goes through when the file keeps its
`blockCount` blocks: all of `uint32_t` but those from `NDIRECT` to `blockCount`. -/
def wrappedIds (blockCount : Nat) : List Nat :=
  (List.range (2 ^ 32 - (blockCount - 32))).map (fun i => (blockCount + i) % 2 ^ 32)

theorem mem_wrappedIds {blockCount id : Nat} (direct : blockCount ≤ id) (word : id < 2 ^ 32)
    (past : 32 ≤ blockCount) : id ∈ wrappedIds blockCount := by
  unfold wrappedIds
  rw [List.mem_map]
  refine ⟨id - blockCount, List.mem_range.mpr (by omega), ?_⟩
  rw [Nat.add_sub_cancel' direct, Nat.mod_eq_of_lt word]

/-- Every block from the bitmap to the end of the disk loses its first 32 bytes. -/
theorem freeAll_wrappedIds (d : Disk) {blockCount : Nat} (past : 32 ≤ blockCount)
    (few : blockCount ≤ 160) (b address : Nat) :
    (freeAll d (wrappedIds blockCount)).blocks b address =
      if 2 ≤ b ∧ b < 32768 ∧ address < 32 then flag (d.blocks b address)
      else d.blocks b address := by
  rw [freeAll_apply]
  congr 1
  apply propext
  constructor
  · rintro ⟨onDisk, id, -, block, byte⟩
    rw [bblock_eq] at block
    omega
  · rintro ⟨bitmap, onDisk, early⟩
    refine ⟨onDisk, (b - 2) * 4096 + 256 + 8 * address, mem_wrappedIds ?_ ?_ past, ?_, ?_⟩
    · omega
    · omega
    · rw [bblock_eq]
      omega
    · omega

private theorem shrinkFile_same {d : Disk} {ino : Inode} (uninit : Uninit)
    (past : 32 < fileBlocks ino) (few : fileBlocks ino ≤ 160) :
    shrinkFile d uninit ino (fileBlocks ino) (fileBlocks ino) =
      some (freeAll d (wrappedIds (fileBlocks ino))) := by
  have limit : subUint32 (min (fileBlocks ino) ndirect) (fileBlocks ino) =
      2 ^ 32 - (fileBlocks ino - 32) := by
    rw [ndirect_eq, Nat.min_eq_right (by omega)]
    unfold subUint32 toUint32
    omega
  have counted : (List.range (2 ^ 32 - (fileBlocks ino - 32))).foldl
      (fun d i => freeBlock d ((fileBlocks ino + i) % 2 ^ 32)) d =
      freeAll d (wrappedIds (fileBlocks ino)) := by
    unfold freeAll wrappedIds
    rw [List.foldl_map]
  unfold shrinkFile
  simp only [limit, counted]
  have usesIndex : ndirect < fileBlocks ino := past
  rw [if_pos usesIndex, if_pos usesIndex]
  unfold freeIndirect
  rw [Nat.sub_self]
  rfl

private theorem load32_flagged {before after : Memory} {base : Nat}
    (lower : 352 ≤ (load32 before base).toNat) (upper : (load32 before base).toNat < 32768)
    (flags : ∀ address, base ≤ address → address < base + 4 →
      after address = flag (before address)) :
    (load32 after base).toNat = 256 ∨ (load32 after base).toNat = 257 := by
  have flagNat : ∀ byte : UInt8, (flag byte).toNat = if byte.toNat = 0 then 0 else 1 := by
    intro byte
    unfold flag
    by_cases zero : byte = 0
    · rw [if_pos zero, zero]
      rfl
    · have nonzero : ¬byte.toNat = 0 := fun same => zero (UInt8.toNat_inj.mp same)
      rw [if_neg zero, if_neg nonzero]
      rfl
  unfold load32 at lower upper ⊢
  rw [flags base (by omega) (by omega), flags (base + 1) (by omega) (by omega),
    flags (base + 2) (by omega) (by omega), flags (base + 3) (by omega) (by omega)]
  have bound0 := (before base).toNat_lt
  have bound1 := (before (base + 1)).toNat_lt
  have bound2 := (before (base + 2)).toNat_lt
  have bound3 := (before (base + 3)).toNat_lt
  rw [UInt32.toNat_ofNat'] at lower upper ⊢
  rw [flagNat, flagNat, flagNat, flagNat]
  split <;> split <;> split <;> split <;> omega

/-! ### The write -/

private def blurred (d : Disk) (inum : Nat) (ino : Inode) : Disk :=
  putInode (freeAll d (wrappedIds (fileBlocks ino))) inum ino

section Blurred

variable {d : Disk} {inum : Nat} {ino : Inode} (placed : Placed d ino)
  (past : 32 < fileBlocks ino)
include placed past

private theorem blurred_apply {b : Nat} (other : b ≠ 11 + inum / 3) (address : Nat) :
    (blurred d inum ino).blocks b address =
      if 2 ≤ b ∧ b < 32768 ∧ address < 32 then flag (d.blocks b address)
      else d.blocks b address := by
  unfold blurred
  rw [putInode_other _ _ other]
  exact freeAll_wrappedIds d (by omega) placed.readable.fileBlocks_le b address

variable (away : 11 + inum / 3 < 256)
include away

private theorem blurred_entry {n : Nat} (lower : 32 ≤ n) (upper : n < fileBlocks ino) :
    ((n < 40 → dataRef (blurred d inum ino) ino n = 256 ∨
        dataRef (blurred d inum ino) ino n = 257) ∧
      (40 ≤ n → dataRef (blurred d inum ino) ino n = dataRef d ino n)) := by
  have index := placed.inData _ (indexBlock_mem past)
  have bounds := placed.inData _ (dataRef_mem upper)
  have notRecord : ino.indexBlock ≠ 11 + inum / 3 := by omega
  have bytes := blurred_apply placed past notRecord
  simp only [dataRef_indirect _ _ lower] at bounds ⊢
  constructor
  · intro early
    apply load32_flagged bounds.1 bounds.2
    intro address _above below
    rw [bytes, if_pos ⟨by omega, by omega, by omega⟩]
  · intro late
    congr 1
    apply load32_congr
    intro address above _below
    rw [bytes, if_neg (by omega)]

private theorem blurred_onDisk {n : Nat} (below : n < fileBlocks ino) :
    256 ≤ dataRef (blurred d inum ino) ino n ∧ dataRef (blurred d inum ino) ino n < 32768 := by
  have bounds := placed.inData _ (dataRef_mem below)
  by_cases direct : n < 32
  · rw [dataRef_direct _ _ direct] at bounds ⊢
    omega
  · obtain ⟨early, late⟩ := blurred_entry placed past away (by omega) below
    by_cases first : n < 40
    · rcases early first with here | here <;> omega
    · rw [late (by omega)]
      omega

/-- The data transfer goes through, and writes neither the index block nor a
block below the data area that holds no flagged entry. -/
private theorem writeData_blurred (uninit : Uninit) (buf : Memory) :
    ∃ after, writeData (blurred d inum ino) uninit ino (fileBlocks ino) buf = some after ∧
      after.blocks ino.indexBlock = (blurred d inum ino).blocks ino.indexBlock ∧
      ∀ b, b < 256 → after.blocks b = (blurred d inum ino).blocks b := by
  have few := placed.readable.fileBlocks_le
  have index := placed.inData _ (indexBlock_mem past)
  let kept : Disk → Prop := fun after =>
    after.blocks ino.indexBlock = (blurred d inum ino).blocks ino.indexBlock ∧
      ∀ b, b < 256 → after.blocks b = (blurred d inum ino).blocks b
  have next : ∀ after n source, kept after → n < fileBlocks ino →
      kept (after.writeBlock (dataRef (blurred d inum ino) ino n) source) := by
    rintro after n source ⟨sameIndex, sameLow⟩ below
    have bounds := blurred_onDisk placed past away below
    have notIndex : ino.indexBlock ≠ dataRef (blurred d inum ino) ino n := by
      intro same
      by_cases direct : n < 32
      · apply placed.index_ne past n below
        rw [same, dataRef_direct _ _ direct, dataRef_direct _ _ direct]
      · obtain ⟨early, late⟩ := blurred_entry placed past away (by omega) below
        by_cases first : n < 40
        · rcases early first with here | here <;> omega
        · apply placed.index_ne past n below
          rw [same, late (by omega)]
    constructor
    · rw [Disk.writeBlock_other after _ notIndex]
      exact sameIndex
    · intro b low
      rw [Disk.writeBlock_other after _ (by omega)]
      exact sameLow b low
  obtain ⟨middle, ranDirect, keptDirect⟩ : ∃ middle,
      writeDirect (blurred d inum ino) ino buf 32 = some middle ∧ kept middle := by
    apply Loop.foldlM_range (fun _counter after => kept after)
    · exact ⟨rfl, fun _b _low => rfl⟩
    · intro counter after below holds
      have inDirect : counter < 32 := by omega
      have here : dataRef (blurred d inum ino) ino counter = ino.blockAt counter := if_pos inDirect
      rw [ino.block_eq (by omega), ← here]
      exact ⟨_, rfl, next after counter _ holds (by omega)⟩
  have entries : ∀ counter, counter < 128 →
      indirectEntry (middle.readBlock ino.indexBlock uninit.indirectBlocksAgain 0) counter =
        some (dataRef (blurred d inum ino) ino (32 + counter)) := by
    intro counter below
    rw [indirectEntry_readBlock _ index.2 below, dataRef_of_indexBlock keptDirect.1]
  obtain ⟨after, ranIndirect, keptAll⟩ : ∃ after, writeIndirect middle
      (middle.readBlock ino.indexBlock uninit.indirectBlocksAgain 0) buf 32
      (fileBlocks ino - 32) = some after ∧ kept after := by
    apply Loop.foldlM_range (fun _counter after => kept after)
    · exact keptDirect
    · intro counter after below holds
      rw [entries counter (by omega)]
      exact ⟨_, rfl, next after _ _ holds (by omega)⟩
  refine ⟨after, ?_, keptAll.1, keptAll.2⟩
  have limit : min (fileBlocks ino) ndirect = 32 := by
    rw [ndirect_eq]
    omega
  unfold writeData
  simp only [limit, ranDirect, Option.bind_eq_bind, Option.bind_some]
  have hasIndex : ¬fileBlocks ino ≤ ndirect := Nat.not_le.mpr past
  rw [if_neg hasIndex]
  exact ranIndirect

end Blurred

structure Overwritten (d : Disk) (inum : Nat) (ino : Inode) (after : Disk) (next : Inode) :
    Prop where
  found : getInode after inum = some next
  blocks_eq : fileBlocks next = fileBlocks ino
  readable : Readable after next
  low : ∀ b, 2 ≤ b → b < 256 → b ≠ 11 + inum / 3 → ∀ address, after.blocks b address =
    if address < 32 then flag (d.blocks b address) else d.blocks b address
  entries : ∀ n, 32 ≤ n → n < 40 → n < fileBlocks next →
    dataRef after next n = 256 ∨ dataRef after next n = 257

theorem writeFile_overwrite {d : Disk} {inum size : Nat} {ino : Inode} (uninit : Uninit)
    (buf : Memory) (found : getInode d inum = some ino) (placed : Placed d ino)
    (past : 32 < fileBlocks ino) (same : (size + 511) / 512 = fileBlocks ino)
    (away : 11 + inum / 3 < 256) :
    ∃ after next, writeFile d uninit inum buf size = some after ∧ next.size.toNat = size ∧
      Overwritten d inum ino after next := by
  have few := placed.readable.fileBlocks_le
  have inTable := getInode_lt found
  have original : ceil ino.size.toNat blockSize = fileBlocks ino := rfl
  have size32 : (UInt32.ofNat (toUint32 size)).toNat = size := toNat_toUint32 (by omega)
  let next : Inode := { ino with size := UInt32.ofNat (toUint32 size) }
  have count : fileBlocks next = fileBlocks ino := by
    rw [fileBlocks_eq next, ← same]
    change ((UInt32.ofNat (toUint32 size)).toNat + 511) / 512 = _
    rw [size32]
  have sameRef : ∀ disk n, dataRef disk next n = dataRef disk ino n := fun _disk _n => rfl
  have references_eq : references d next = references d ino := by
    unfold references
    rw [count]
    rfl
  have placedNext : Placed d next := by
    refine ⟨?_, ?_, ?_, ?_⟩
    · change (UInt32.ofNat (toUint32 size)).toNat ≤ 81920
      rw [size32]
      omega
    · rw [references_eq]
      exact placed.inData
    · rw [count]
      exact placed.injective
    · rw [count]
      exact placed.index_ne
  obtain ⟨after, ran, sameIndex, sameLow⟩ :=
    writeData_blurred placedNext (by omega) away uninit buf
  have refs : ∀ n, dataRef after next n = dataRef (blurred d inum next) next n :=
    fun n => dataRef_of_indexBlock sameIndex n
  have index := placedNext.inData _ (indexBlock_mem (by omega))
  refine ⟨after, next, ?_, size32, ?_, count, ⟨placedNext.size_le, ?_⟩, ?_, ?_⟩
  · unfold writeFile
    rw [found]
    have int : size < 2 ^ 31 := by omega
    simp only [toUint32_ceilInt int, original, same]
    have allowed : ¬maxfile < fileBlocks ino := by rw [maxfile_eq]; omega
    rw [if_neg allowed,
      if_neg (Nat.lt_irrefl _), shrinkFile_same uninit past few]
    rw [count] at ran
    unfold blurred at ran
    rw [count] at ran
    exact ran
  · rw [getInode_congr (sameLow _ away)]
    unfold blurred
    rw [getInode_putInode_self _ _ inTable]
    exact if_neg (getInode_type found)
  · intro b member
    rcases mem_references.mp member with ⟨-, rfl⟩ | ⟨n, below, rfl⟩
    · exact index.2
    · rw [refs n]
      exact (blurred_onDisk placedNext (by omega) away below).2
  · intro b lower upper different address
    rw [sameLow b upper, blurred_apply placedNext (by omega) different]
    by_cases early : address < 32
    · rw [if_pos ⟨lower, by omega, early⟩, if_pos early]
    · rw [if_neg (fun all => early all.2.2), if_neg early]
  · intro n lower early below
    rw [refs n]
    exact (blurred_entry placedNext (by omega) away lower below).1 early

end CseLab.FileSystem
