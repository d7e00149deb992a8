import CseLab.FileSystem.WriteFile

/-! The number of the last block that `write_file` writes, as the disk before the
call has it. It may be no block of the disk, and then `write_block` does nothing. -/

namespace CseLab.FileSystem

open ByteMemory

/-! ### The direct blocks -/

theorem writeDirect_succeeds (d : Disk) (ino : Inode) (buf : Memory) {limit : Nat}
    (direct : limit ≤ 32) : ∃ after, writeDirect d ino buf limit = some after := by
  obtain ⟨after, ran, -⟩ := @Loop.foldlM_range _
    (fun d i => do
      let id ← ino.block i
      some (d.writeBlock id (shift buf (blockSize * i))))
    (fun _ _ => True) limit d trivial (fun i d below _ => by
      rw [ino.block_eq (by omega)]
      exact ⟨_, rfl, trivial⟩)
  exact ⟨after, ran⟩

theorem writeDirect_succ (d : Disk) (ino : Inode) (buf : Memory) {limit : Nat}
    (direct : limit < 32) :
    writeDirect d ino buf (limit + 1) = (writeDirect d ino buf limit).map
      (fun after => after.writeBlock (ino.blockAt limit) (shift buf (blockSize * limit))) := by
  unfold writeDirect
  rw [List.range_succ, List.foldlM_append, Option.map_eq_bind]
  have entry : limit < 33 := by omega
  simp only [List.foldlM_cons, List.foldlM_nil, ino.block_eq entry]
  rfl

theorem writeDirect_apply {d after : Disk} {ino : Inode} {buf : Memory} {limit b address : Nat}
    (direct : limit ≤ 32) (onDisk : b < 32768) (inBlock : address < 512)
    (written : writeDirect d ino buf limit = some after) :
    after.blocks b address =
      match (List.range limit).reverse.find? (fun n => decide (ino.blockAt n = b)) with
      | some n => buf (512 * n + address)
      | none => d.blocks b address := by
  induction limit generalizing after with
  | zero =>
      cases written
      rfl
  | succ limit ih =>
      rw [writeDirect_succ d ino buf direct] at written
      obtain ⟨before, earlier, rfl⟩ := Option.map_eq_some_iff.mp written
      rw [List.range_succ, List.reverse_append, List.reverse_singleton, List.singleton_append,
        List.find?_cons, Disk.writeBlock_apply]
      by_cases here : ino.blockAt limit = b
      · rw [decide_eq_true here, if_pos ⟨here ▸ onDisk, here.symm, inBlock⟩]
        rfl
      · rw [decide_eq_false here, if_neg (fun all => here all.2.1.symm)]
        exact ih (by omega) earlier

/-! ### The last block -/

def grownAddress (d : Disk) (ino : Inode) (n : Nat) : Nat :=
  if fileBlocks ino ≤ n then nthAlloc d (n - fileBlocks ino) else ino.blockAt n

/-- The last direct block that has the number of the new index block. Its data are
what the index block holds when it is read again. -/
def overIndex (d : Disk) (ino : Inode) : Option Nat :=
  (List.range ndirect).reverse.find?
    (fun n => decide (grownAddress d ino n = grownAddress d ino ndirect))

/-- The last block that is to be written has no number of a block of the disk, so
that `write_block` leaves it alone: a file that gains no block has a bad address
there, or a file that gets an index block has had it overwritten, by data or by its
inode, before it is read again. -/
def TailIgnored (d : Disk) (inum : Nat) (ino : Inode) (buf : Memory) (size : Nat) : Prop :=
  let blockCount := ceil size blockSize
  if blockCount ≤ fileBlocks ino then blockNum ≤ ino.blockAt (blockCount - 1)
  else
    ndirect < blockCount ∧
      let entry := 4 * (blockCount - 1 - ndirect)
      match overIndex d ino with
      | some n => blockNum ≤ (load32 buf (blockSize * n + entry)).toNat
      | none =>
          grownAddress d ino ndirect = iblock inum sb.nblocks ∧ entry < sizeofInode - 4 ∧
            blockNum ≤ (load32 (ino.store (fun _ => 0) 0) entry).toNat

variable {d : Disk} {inum : Nat} {ino : Inode} {size : Nat}

/-- The index block is the block of the inode for one file only. -/
theorem record_of_index (inTable : inum < 1024) (direct : fileBlocks ino ≤ 32)
    (same : nthAlloc d (32 - fileBlocks ino) = 11 + inum / 3) :
    inum = 1023 ∧ fileBlocks ino = 32 := by
  rcases nthAlloc_eq_zero_or d (32 - fileBlocks ino) with zero | lower
  · omega
  · have last : inum = 1023 := by omega
    have first := nthAlloc_firstData (same.trans (by rw [last, firstData_eq]))
    exact ⟨last, by omega⟩

theorem load32_store_size (ino : Inode) (memory : Memory) :
    load32 (ino.store memory 0) 4 = ino.size :=
  congrArg Inode.size (ino.load_store memory 0)

variable {blocks : Vector UInt32 (ndirect + 1)} {later : UInt32}

theorem record_word {memory : Memory} {k : Nat}
    (kept : ∀ n, n < ndirect → blocks[n]?.getD 0 = ino.blocks[n]?.getD 0)
    (padding : (load32 memory 0).toNat < 32768) (inRecord : k < 37)
    (was : ino.size.toNat < 32768) (now : k = 1 → later.toNat < 32768) :
    (load32 (({ ino with blocks := blocks, size := later } : Inode).store memory 0)
        (4 * k)).toNat < 32768 ↔
      (load32 (ino.store (fun _ => 0) 0) (4 * k)).toNat < 32768 := by
  by_cases isSize : k = 1
  · subst isSize
    rw [load32_store_size, load32_store_size]
    exact iff_of_true (now rfl) was
  · have same : load32 (({ ino with blocks := blocks, size := later } : Inode).store memory 0)
        (4 * k) = load32 (ino.store (fun _ => 0) 0) (4 * k) := by
      apply load32_congr
      intro address lower upper
      obtain ⟨third, fourth⟩ := load32_upper padding
      apply Inode.store_congr
      · rfl
      · rfl
      · rfl
      · rfl
      · exact kept
      · intro j below
        interval_cases j
        · exact third
        · exact fourth
      · exact Nat.zero_le address
      · omega
      · omega
    rw [same]

theorem load32_store_past (next : Inode) (memory : Memory) {k : Nat} (past : 37 ≤ k) :
    (load32 (next.store memory 0) (4 * k)).toNat =
      if k = 37 then next.blockAt ndirect else (load32 memory (4 * k)).toNat := by
  split
  next last =>
    have here : 4 * k = 0 + 20 + 4 * ndirect := by
      rw [last, ndirect_eq]
    unfold Inode.store Inode.blockAt
    rw [here, next.load32_storeBlocks _ 0 (Nat.lt_succ_self ndirect)]
  next behind =>
    congr 1
    apply load32_congr
    intro address lower upper
    exact next.store_outside memory 0 (.inr (by omega))

theorem entry_again {next : Inode} {middle after : Disk} {buf : Memory}
    (addresses : ∀ n, n ≤ ndirect → next.blockAt n = grownAddress d ino n)
    (onDisk : grownAddress d ino ndirect < 32768)
    (written : writeDirect middle next buf ndirect = some after) {k : Nat} (inside : k < 128) :
    dataRef after next (32 + k) =
      (load32 (match overIndex d ino with
        | some n => shift buf (512 * n)
        | none => middle.blocks (grownAddress d ino ndirect)) (4 * k)).toNat := by
  have scan : (List.range ndirect).reverse.find?
      (fun n => decide (next.blockAt n = grownAddress d ino ndirect)) = overIndex d ino := by
    apply List.find?_congr
    intro n member
    rw [List.mem_reverse, List.mem_range] at member
    rw [addresses n (Nat.le_of_lt member)]
  have index : next.indexBlock = grownAddress d ino ndirect :=
    next.indexBlock_eq.trans (addresses ndirect (Nat.le_refl ndirect))
  rw [dataRef_indirect _ _ (Nat.le_add_right 32 k), Nat.add_sub_cancel_left, index]
  congr 1
  apply load32_congr
  intro address lower upper
  have direct32 : ndirect ≤ 32 := Nat.le_refl 32
  rw [writeDirect_apply direct32 onDisk (by omega) written, scan]
  cases overIndex d ino <;> rfl

/-- The entry is off the disk where the record of the inode is, which is then the last
inode, of a file that had just all its direct blocks. -/
theorem entry_of_record_iff {middle : Disk} {k : Nat} (inTable : inum < 1024)
    (direct : fileBlocks ino ≤ 32) (was : ino.size.toNat < 32768)
    (now : k = 1 → later.toNat < 32768)
    (addresses : ∀ n, n ≤ ndirect →
      ({ ino with blocks := blocks, size := later } : Inode).blockAt n = grownAddress d ino n)
    (inside : k < 128)
    (entries : ∀ j, j = 0 ∨ j = k →
      (load32 (middle.blocks (grownAddress d ino ndirect)) (4 * j)).toNat < 32768) :
    32768 ≤ (load32 ((putInode middle inum { ino with blocks := blocks, size := later }).blocks
        (grownAddress d ino ndirect)) (4 * k)).toNat ↔
      grownAddress d ino ndirect = 11 + inum / 3 ∧ 4 * k < 148 ∧
        32768 ≤ (load32 (ino.store (fun _ => 0) 0) (4 * k)).toNat := by
  have index : grownAddress d ino ndirect = nthAlloc d (32 - fileBlocks ino) := if_pos direct
  by_cases record : grownAddress d ino ndirect = 11 + inum / 3
  · obtain ⟨rfl, full⟩ := record_of_index inTable direct (index.symm.trans record)
    have kept : ∀ n, n < ndirect → blocks[n]?.getD 0 = ino.blocks[n]?.getD 0 := by
      intro n below
      have same := addresses n (Nat.le_of_lt below)
      unfold grownAddress at same
      rw [if_neg (by rw [full]; exact Nat.not_le.mpr below)] at same
      exact UInt32.toNat_inj.mp same
    have read : ∀ j, j < 128 → load32 (middle.readBlock 352 (fun _ => 0) 0) (4 * j) =
        load32 (middle.blocks (grownAddress d ino ndirect)) (4 * j) := by
      intro j below
      apply load32_congr
      intro address lower upper
      rw [Disk.readBlock_apply, if_pos ⟨by omega, by omega, by omega⟩, record]
      rfl
    have stored :
        load32 ((putInode middle 1023 { ino with blocks := blocks, size := later }).blocks
          (grownAddress d ino ndirect)) (4 * k) =
        load32 (({ ino with blocks := blocks, size := later } : Inode).store
          (middle.readBlock 352 (fun _ => 0) 0) 0) (4 * k) := by
      apply load32_congr
      intro address lower upper
      rw [record]
      exact putInode_apply middle _ (by omega) (by omega)
    rw [and_iff_right record, stored]
    by_cases inRecord : k < 37
    · have padding := entries 0 (.inl rfl)
      rw [← read 0 (by omega)] at padding
      rw [and_iff_right (by omega), ← Nat.not_lt, ← Nat.not_lt, not_iff_not]
      exact record_word kept padding inRecord was now
    · refine iff_of_false ?_ (fun ignored => inRecord (by omega))
      rw [load32_store_past _ _ (Nat.not_lt.mp inRecord), Nat.not_le]
      split
      next last =>
        rw [addresses ndirect (Nat.le_refl ndirect), record]
        omega
      next behind =>
        rw [read k inside]
        exact entries k (.inr rfl)
  · rw [putInode_other _ _ record]
    refine iff_of_false ?_ (fun ignored => record ignored.1)
    exact Nat.not_le.mpr (entries k (.inr rfl))

theorem grown_tail_iff (uninit : Uninit) {buf : Memory} (inTable : inum < 1024)
    (direct : fileBlocks ino ≤ 32) (past : 32 < (size + 511) / 512) (small : size ≤ 81920)
    {middle after : Disk} {grown : Inode}
    (ran : growFile d uninit ino (fileBlocks ino) ((size + 511) / 512) = some (middle, grown))
    (written : writeDirect (putInode middle inum { grown with size := UInt32.ofNat size })
      { grown with size := UInt32.ofNat size } buf ndirect = some after) :
    ¬ dataRef after { grown with size := UInt32.ofNat size } ((size + 511) / 512 - 1) < 32768 ↔
      TailIgnored d inum ino buf size := by
  have direct_eq := ndirect_eq
  have blocksOld := fileBlocks_eq ino
  obtain ⟨blocks, entries, again, indexAddress, directAddresses, stored⟩ :=
    growFile_past (d := d) uninit direct past (by omega)
  cases again.symm.trans ran
  have index : grownAddress d ino ndirect = nthAlloc d (32 - fileBlocks ino) := if_pos direct
  have onDisk : grownAddress d ino ndirect < 32768 := index.trans_lt (allocBlock_lt _)
  have addresses : ∀ n, n ≤ ndirect →
      ({ ino with blocks := blocks, size := UInt32.ofNat size } : Inode).blockAt n =
        grownAddress d ino n := by
    intro n upper
    rcases Nat.lt_or_eq_of_le upper with below | rfl
    · exact directAddresses n below
    · exact ((Inode.indexBlock_eq { ino with blocks := blocks }).symm.trans indexAddress).trans
        index.symm
  obtain ⟨k, last⟩ : ∃ k, (size + 511) / 512 - 1 = 32 + k :=
    ⟨(size + 511) / 512 - 1 - 32, by omega⟩
  have size32 : (UInt32.ofNat size).toNat = size := by
    rw [UInt32.toNat_ofNat']
    omega
  have fresh : ∀ j, j = 0 ∨ j = k →
      (load32 (((afterAllocs d ((size + 511) / 512 + 1 - fileBlocks ino)).writeBlock
        (nthAlloc d (32 - fileBlocks ino)) entries).blocks (grownAddress d ino ndirect))
          (4 * j)).toNat < 32768 := by
    intro j which
    have same : load32 (((afterAllocs d ((size + 511) / 512 + 1 - fileBlocks ino)).writeBlock
        (nthAlloc d (32 - fileBlocks ino)) entries).blocks (grownAddress d ino ndirect)) (4 * j) =
        load32 entries (4 * j) := by
      apply load32_congr
      intro address lower upper
      rw [Disk.writeBlock_apply, if_pos ⟨allocBlock_lt _, index, by omega⟩]
    rw [same, stored j (by omega)]
    exact allocBlock_lt _
  rw [last, entry_again addresses onDisk written (by omega), Nat.not_lt]
  unfold TailIgnored
  simp only [ceil_eq]
  rw [if_neg (by omega), and_iff_right (show ndirect < _ from past), last, direct_eq,
    Nat.add_sub_cancel_left, blockNum_eq, iblock_eq]
  cases overIndex d ino with
  | some n =>
      dsimp only
      rw [load32_shift]
      exact Iff.rfl
  | none =>
      exact entry_of_record_iff inTable direct (by omega)
        (fun second => by omega) addresses (by omega) fresh

end CseLab.FileSystem
