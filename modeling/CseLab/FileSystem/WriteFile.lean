import CseLab.FileSystem.Reshape

/-! `write_file` as a whole: after the blocks are arranged the inode goes to the
table and the buffer to the data blocks. `Rewritten` is what a caller may rely
on: the bytes of the file, where its blocks come from, and what else changed. -/

namespace CseLab.FileSystem

open ByteMemory

/-! ### Data transfer -/

structure Written (d : Disk) (ino : Inode) (buf : Memory) (count : Nat) (after : Disk) :
    Prop where
  stored : ∀ n, n < count → ∀ j, j < 512 → after.blocks (dataRef d ino n) j = buf (512 * n + j)
  others : ∀ b, (∀ n, n < count → dataRef d ino n ≠ b) → after.blocks b = d.blocks b

theorem Written.start (d : Disk) (ino : Inode) (buf : Memory) : Written d ino buf 0 d :=
  ⟨fun n below => absurd below (Nat.not_lt_zero n), fun _b _unused => rfl⟩

theorem Written.next {d after : Disk} {ino : Inode} {buf : Memory} {count : Nat}
    (written : Written d ino buf count after) (placed : Placed d ino)
    (used : count < fileBlocks ino) :
    Written d ino buf (count + 1)
      (after.writeBlock (dataRef d ino count) (shift buf (blockSize * count))) := by
  have onDisk := (placed.inData _ (dataRef_mem used)).2
  refine ⟨?_, ?_⟩
  · intro n below j inBlock
    rw [Disk.writeBlock_apply]
    by_cases last : n = count
    · subst last
      rw [if_pos ⟨onDisk, rfl, inBlock⟩]
      rfl
    · have different : dataRef d ino n ≠ dataRef d ino count := fun same =>
        last (placed.injective n count (by omega) used same)
      rw [if_neg (fun all => different all.2.1)]
      exact written.stored n (by omega) j inBlock
  · intro b unused
    rw [Disk.writeBlock_other after _ (unused count (Nat.lt_succ_self count)).symm]
    exact written.others b (fun n below => unused n (by omega))

theorem writeDirect_spec {d : Disk} {ino : Inode} (placed : Placed d ino) (buf : Memory)
    (limit : Nat) (direct : limit ≤ 32) (few : limit ≤ fileBlocks ino) :
    ∃ after, writeDirect d ino buf limit = some after ∧ Written d ino buf limit after := by
  apply Loop.foldlM_range (Written d ino buf)
  · exact Written.start d ino buf
  · intro counter after below written
    rw [ino.block_eq (by omega), ← dataRef_direct d ino (by omega)]
    exact ⟨_, rfl, written.next placed (by omega)⟩

private theorem writeIndirect_spec {d middle : Disk} {ino : Inode} (placed : Placed d ino)
    (uninit buf : Memory) {count : Nat} (all : 32 + count = fileBlocks ino) (any : 0 < count)
    (direct : Written d ino buf 32 middle) :
    ∃ after, writeIndirect middle (middle.readBlock ino.indexBlock uninit 0) buf 32 count =
        some after ∧ Written d ino buf (32 + count) after := by
  have most := placed.readable.fileBlocks_le
  have indexOnDisk := (placed.inData _ (indexBlock_mem (by omega))).2
  have sameIndex : middle.blocks ino.indexBlock = d.blocks ino.indexBlock :=
    direct.others _ (fun n below => placed.index_ne (by omega) n (by omega))
  apply Loop.foldlM_range (fun counter => Written d ino buf (32 + counter))
  · exact direct
  · intro counter after below written
    have used : 32 + counter < fileBlocks ino := by omega
    rw [indirectEntry_readBlock uninit indexOnDisk (by omega),
      dataRef_of_indexBlock sameIndex]
    exact ⟨_, rfl, written.next placed used⟩

private theorem writeData_spec {d : Disk} {ino : Inode} (uninit : Uninit) (placed : Placed d ino)
    (buf : Memory) :
    ∃ after, writeData d uninit ino (fileBlocks ino) buf = some after ∧
      Written d ino buf (fileBlocks ino) after := by
  obtain ⟨middle, ranDirect, direct⟩ :=
    writeDirect_spec placed buf (min (fileBlocks ino) 32) (by omega) (by omega)
  unfold writeData
  change ∃ after, ((writeDirect d ino buf (min (fileBlocks ino) 32)).bind fun d =>
    if fileBlocks ino ≤ ndirect then some d
    else writeIndirect d (d.readBlock ino.indexBlock uninit.indirectBlocksAgain 0) buf
      (min (fileBlocks ino) 32) (fileBlocks ino - min (fileBlocks ino) 32)) = _ ∧ _
  rw [ranDirect, Option.bind_some]
  by_cases small : fileBlocks ino ≤ 32
  · have noIndex : fileBlocks ino ≤ ndirect := small
    rw [if_pos noIndex]
    rw [Nat.min_eq_left small] at direct
    exact ⟨middle, rfl, direct⟩
  · rw [Nat.min_eq_right (by omega)] at direct ⊢
    have hasIndex : ¬fileBlocks ino ≤ ndirect := small
    rw [if_neg hasIndex]
    have all : 32 + (fileBlocks ino - 32) = fileBlocks ino := by omega
    obtain ⟨after, ran, written⟩ :=
      writeIndirect_spec placed uninit.indirectBlocksAgain buf all (by omega) direct
    rw [all] at written
    exact ⟨after, ran, written⟩

/-! ### The whole function -/

structure Rewritten (d : Disk) (inum : Nat) (ino : Inode) (after : Disk) (next : Inode) : Prop
    extends Placed after next where
  found : getInode after inum = some next
  type_eq : next.type = ino.type
  origin : ∀ b ∈ references after next,
    b ∈ keptData d ino (fileBlocks next) ∨ (marked d b = false ∧ marked after b = true)
  taken : fileBlocks ino < fileBlocks next → (allocBlock d).1 ∈ references after next
  unchanged : ∀ b, 10 ≤ b → b ≠ 11 + inum / 3 → b ∉ references after next →
    after.blocks b = d.blocks b
  others : ∀ other, other ≠ inum → 11 + other / 3 ∉ references after next →
    getInode after other = getInode d other

theorem putInode_references {d : Disk} {inum : Nat} {next : Inode}
    (away : 11 + inum / 3 ∉ references d next) :
    ∀ b ∈ references d next, (putInode d inum next).blocks b = d.blocks b := by
  intro b member
  apply putInode_other
  rintro rfl
  exact away member

theorem Placed.putInode {d : Disk} {inum : Nat} {next : Inode} (placed : Placed d next)
    (away : 11 + inum / 3 ∉ references d next) : Placed (putInode d inum next) next := by
  have kept := putInode_references away
  have sameRefs : ∀ n, n < fileBlocks next →
      dataRef (FileSystem.putInode d inum next) next n = dataRef d next n :=
    fun n below => dataRef_congr below kept
  refine ⟨placed.size_le, ?_, ?_, ?_⟩
  · rw [references_congr kept]
    exact placed.inData
  · intro m n belowM belowN same
    rw [sameRefs m belowM, sameRefs n belowN] at same
    exact placed.injective m n belowM belowN same
  · intro indirect n below
    rw [sameRefs n below]
    exact placed.index_ne indirect n below

private theorem commit_spec {d middle : Disk} {inum : Nat} {ino : Inode} (uninit : Uninit)
    (buf : Memory) {next : Inode} (inTable : inum < 1024) (reshaped : Reshaped d ino middle next)
    (present : next.type ≠ 0) (sameType : next.type = ino.type)
    (away : 11 + inum / 3 ∉ references middle next) :
    ∃ after, writeData (putInode middle inum next) uninit next (fileBlocks next) buf = some after ∧
      Rewritten d inum ino after next ∧
      (∀ b, b < 32768 → marked after b = marked middle b) ∧
      contents after next = (List.range next.size.toNat).map buf := by
  have kept := putInode_references away
  have sameRefs : ∀ n, n < fileBlocks next →
      dataRef (putInode middle inum next) next n = dataRef middle next n :=
    fun n below => dataRef_congr below kept
  have placed := reshaped.toPlaced.putInode away
  obtain ⟨after, ran, written⟩ := writeData_spec uninit placed buf
  have outside : ∀ b, b ∉ references middle next →
      after.blocks b = (putInode middle inum next).blocks b := by
    intro b unused
    apply written.others
    intro n below same
    apply unused
    rw [← same, sameRefs n below]
    exact dataRef_mem below
  have finalRefs : ∀ n, n < fileBlocks next → dataRef after next n = dataRef middle next n := by
    intro n below
    rw [← sameRefs n below]
    exact dataRef_index_congr below (fun indirect =>
      written.others _ (fun m belowM => placed.index_ne indirect m belowM))
  have sameReferences : references after next = references middle next := by
    unfold references
    congr 1
    apply List.map_congr_left
    intro n member
    exact finalRefs n (List.mem_range.mp member)
  have bitmap : ∀ b, b < 32768 → marked after b = marked middle b := by
    intro b small
    apply marked_congr
    have here : bblock b ∉ references middle next := fun member => by
      have lower := (reshaped.inData _ member).1
      rw [bblock_eq] at lower
      omega
    rw [outside _ here]
    apply putInode_other
    rw [bblock_eq]
    omega
  refine ⟨after, ran, ⟨⟨reshaped.size_le, ?_, ?_, ?_⟩, ?_, sameType, ?_, ?_, ?_, ?_⟩, bitmap, ?_⟩
  · rw [sameReferences]
    exact reshaped.inData
  · intro m n belowM belowN same
    rw [finalRefs m belowM, finalRefs n belowN] at same
    exact reshaped.injective m n belowM belowN same
  · intro indirect n below
    rw [finalRefs n below]
    exact reshaped.index_ne indirect n below
  · rw [getInode_congr (outside _ away), getInode_putInode_self middle next inTable]
    exact if_neg present
  · intro b member
    rw [sameReferences] at member
    rcases reshaped.origin b member with old | ⟨free, marks⟩
    · exact Or.inl old
    · rw [bitmap b (reshaped.inData b member).2]
      exact Or.inr ⟨free, marks⟩
  · rw [sameReferences]
    exact reshaped.taken
  · intro b upper notInode unused
    rw [sameReferences] at unused
    rw [outside b unused, putInode_other middle next notInode]
    exact reshaped.unchanged b upper unused
  · intro other different unused
    rw [sameReferences] at unused
    rw [getInode_congr (outside _ unused), getInode_putInode_other middle next inTable different]
    exact getInode_congr (reshaped.unchanged _ (by omega) unused)
  · unfold contents
    apply List.map_congr_left
    intro k member
    rw [List.mem_range] at member
    have below : k / 512 < fileBlocks next := by
      rw [fileBlocks_eq]
      omega
    change after.blocks (dataRef after next (k / 512)) (k % 512) = buf k
    rw [finalRefs _ below, ← sameRefs _ below, written.stored _ below _ (by omega)]
    congr 1
    omega

/-- When `write_file` may be trusted with a file that is to have `blockCount`
blocks: the old and the new size are not both past the direct blocks, no
allocation fails, and the last inode, which lives in the first data block, gains
no block. -/
structure Fits (d : Disk) (inum : Nat) (ino : Inode) (blockCount : Nat) : Prop where
  oneSide : fileBlocks ino ≤ 32 ∨ blockCount ≤ 32
  succeed : fileBlocks ino < blockCount →
    AllocsSucceed d (allocCount (fileBlocks ino) blockCount)
  lastInode : inum = inodeNum - 1 → blockCount ≤ fileBlocks ino

def freedByPut (d : Disk) (ino : Inode) (blockCount : Nat) : List Nat :=
  if fileBlocks ino < blockCount then [] else freedByShrink d ino blockCount

theorem toUint32_ceilInt {size : Nat} (small : size < 2 ^ 31) :
    toUint32 (ceilInt size blockSize) = (size + 511) / 512 := by
  unfold toUint32 ceilInt
  change ((if (size : Int).tmod 512 = 0 then (size : Int).tdiv 512
    else (size : Int).tdiv 512 + 1) % 2 ^ 32).toNat = _
  rw [Int.tmod_eq_emod_of_nonneg (by omega), Int.tdiv_eq_ediv_of_nonneg (by omega)]
  split <;> omega

theorem toNat_toUint32 {size : Nat} (small : size < 2 ^ 32) :
    (UInt32.ofNat (toUint32 size)).toNat = size := by
  rw [UInt32.toNat_ofNat']
  unfold toUint32
  omega

theorem writeFile_rewrites {d : Disk} {inum : Nat} {ino : Inode} (uninit : Uninit) (buf : Memory)
    {size : Nat} (found : getInode d inum = some ino) (owned : Owned d ino)
    (last : inum = inodeNum - 1 → marked d firstData = false)
    (fits : Fits d inum ino ((size + 511) / 512)) (small : size ≤ 81920) :
    ∃ after blocks, writeFile d uninit inum buf size = some after ∧
      Rewritten d inum ino after { ino with blocks := blocks, size := UInt32.ofNat size } ∧
      contents after { ino with blocks := blocks, size := UInt32.ofNat size } =
        (List.range size).map buf ∧
      (∀ b, b < 32768 → marked d b = true →
        (∀ id ∈ freedByPut d ino ((size + 511) / 512), ¬Clears id b) → marked after b = true) ∧
      marked after firstData = (marked d firstData || decide (fileBlocks ino < (size + 511) / 512)) := by
  have inTable := getInode_lt found
  have present := getInode_type found
  have same32 : toUint32 size = size := by
    unfold toUint32
    omega
  have size32 : (UInt32.ofNat size).toNat = size := by
    rw [UInt32.toNat_ofNat']
    omega
  have counted : ((UInt32.ofNat size).toNat + 511) / 512 = (size + 511) / 512 := by
    rw [size32]
  have original : ceil ino.size.toNat blockSize = fileBlocks ino := rfl
  unfold writeFile
  rw [found]
  have int : size < 2 ^ 31 := by omega
  simp only [toUint32_ceilInt int, original, same32]
  have allowed : ¬maxfile < (size + 511) / 512 := by rw [maxfile_eq]; omega
  rw [if_neg allowed]
  by_cases grows : fileBlocks ino < (size + 511) / 512
  · have notLast : inum ≠ inodeNum - 1 := fun same => by
      have := fits.lastInode same
      omega
    obtain ⟨middle, blocks, ran, reshaped, marks, first⟩ := growFile_spec uninit owned
      (by rcases fits.oneSide with old | new <;> omega) grows (by omega) counted
      (fits.succeed grows)
    have away : 11 + inum / 3 ∉ references middle
        { ino with blocks := blocks, size := UInt32.ofNat size } := by
      intro member
      have lower := (reshaped.inData _ member).1
      change inum ≠ 1023 at notLast
      omega
    obtain ⟨after, wrote, rewritten, sameMarks, bytes⟩ :=
      commit_spec uninit buf inTable reshaped present rfl away
    have count : fileBlocks { ino with blocks := blocks, size := UInt32.ofNat size } =
        (size + 511) / 512 := by
      rw [fileBlocks_eq]
      exact counted
    rw [count] at wrote
    refine ⟨after, blocks, ?_, rewritten, ?_, ?_, ?_⟩
    · rw [if_pos grows, ran]
      exact wrote
    · rw [bytes, size32]
    · intro b below was _kept
      rw [sameMarks b below]
      exact marks b below was
    · rw [sameMarks _ (by rw [firstData_eq]; omega), first, decide_eq_true grows, Bool.or_true]
  · have shrinks : (size + 511) / 512 ≤ fileBlocks ino := by omega
    have direct : (size + 511) / 512 ≤ 32 := by
      rcases fits.oneSide with old | new <;> omega
    obtain ⟨reshaped, subset⟩ := shrink_reshaped owned direct shrinks counted
    have away : 11 + inum / 3 ∉ references (freeAll d (freedByShrink d ino ((size + 511) / 512)))
        { ino with size := UInt32.ofNat size } := by
      intro member
      have lower := (reshaped.inData _ member).1
      by_cases lastInode : inum = inodeNum - 1
      · have wasMarked := owned.marks _ (keptData_subset (subset _ member))
        have clear := last lastInode
        subst lastInode
        have lastRecord : 11 + (inodeNum - 1) / 3 = firstData := rfl
        rw [lastRecord, clear] at wasMarked
        cases wasMarked
      · change inum ≠ 1023 at lastInode
        omega
    obtain ⟨after, wrote, rewritten, sameMarks, bytes⟩ :=
      commit_spec uninit buf inTable reshaped present rfl away
    have count : fileBlocks { ino with size := UInt32.ofNat size } = (size + 511) / 512 := by
      rw [fileBlocks_eq]
      exact counted
    rw [count] at wrote
    refine ⟨after, ino.blocks, ?_, rewritten, ?_, ?_, ?_⟩
    · rw [if_neg grows, shrinkFile_eq uninit owned direct shrinks]
      exact wrote
    · rw [bytes, size32]
    · intro b below was kept
      rw [sameMarks b below]
      apply marked_freeAll was
      unfold freedByPut at kept
      rw [if_neg grows] at kept
      exact kept
    · rw [sameMarks _ (by rw [firstData_eq]; omega), marked_firstData_freeAll,
        decide_eq_false grows, Bool.or_false]

theorem writeFile_spec {d : Disk} {inum : Nat} {ino : Inode} (uninit : Uninit) (buf : Memory)
    {size : Nat} (found : getInode d inum = some ino) (owned : Owned d ino)
    (last : inum = inodeNum - 1 → marked d firstData = false)
    (fits : Fits d inum ino ((size + 511) / 512)) (small : size ≤ 81920) :
    ∃ after next, writeFile d uninit inum buf size = some after ∧
      Rewritten d inum ino after next ∧ next.size.toNat = size ∧
      contents after next = (List.range size).map buf ∧
      (∀ b, b < 32768 → marked d b = true →
        (∀ id ∈ freedByPut d ino ((size + 511) / 512), ¬Clears id b) → marked after b = true) ∧
      marked after firstData = (marked d firstData || decide (fileBlocks ino < (size + 511) / 512)) := by
  obtain ⟨after, blocks, ran, rewritten, bytes, marks, first⟩ :=
    writeFile_rewrites uninit buf found owned last fits small
  refine ⟨after, _, ran, rewritten, ?_, bytes, marks, first⟩
  change (UInt32.ofNat size).toNat = size
  rw [UInt32.toNat_ofNat']
  omega

end CseLab.FileSystem
