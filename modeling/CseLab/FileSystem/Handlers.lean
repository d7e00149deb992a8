import CseLab.FileSystem.Consistency

/-! `put` and `remove` on a file: the condition under which each does its job
and leaves the other files alone, and what it does then. -/

namespace CseLab.FileSystem

open ByteMemory

/-- Passing `id` to `free_block` clears the mark of no block that stays in use,
neither of the blocks `inum` keeps nor of those of another file. -/
structure Spares (d : Disk) (inum : Nat) (kept : List Nat) (id : Nat) : Prop where
  own : ∀ b ∈ kept, ¬Clears id b
  others : ∀ other ino, other ≠ inum → FileAt d other ino → ∀ b ∈ references d ino, ¬Clears id b

/-! ### `put` -/

/-- When `write_file` may be trusted with the rest of the disk as well: the file
is not the last inode lying in data, the file that takes the block of the last
inode does so before that inode is in use, and the freed marks are not needed. -/
structure WriteOk (d : Disk) (inum : Nat) (ino : Inode) (blockCount : Nat) : Prop
    extends Fits d inum ino blockCount where
  last : inum = inodeNum - 1 → marked d firstData = false
  shadow : fileBlocks ino < blockCount → marked d firstData = false →
    getInode d (inodeNum - 1) = none
  spares : ∀ id ∈ freedByPut d ino blockCount, Spares d inum (keptData d ino blockCount) id

private theorem rewritten_marks {d after : Disk} {inum : Nat} {ino next : Inode}
    (consistent : Consistent d) (file : FileAt d inum ino)
    (rewritten : Rewritten d inum ino after next) (ok : WriteOk d inum ino (fileBlocks next))
    (kept : ∀ b, b < 32768 → marked d b = true →
      (∀ id ∈ freedByPut d ino (fileBlocks next), ¬Clears id b) → marked after b = true) :
    ∀ b ∈ references after next, marked after b = true := by
  have owned := consistent.owned inum ino file
  intro b member
  rcases rewritten.origin b member with old | ⟨-, marks⟩
  · apply kept b (rewritten.inData b member).2 (owned.marks b (keptData_subset old))
    intro id freed
    exact (ok.spares id freed).own b old
  · exact marks

private theorem rewritten_untouched {d after : Disk} {inum : Nat} {ino next : Inode}
    (consistent : Consistent d) (file : FileAt d inum ino)
    (rewritten : Rewritten d inum ino after next) (ok : WriteOk d inum ino (fileBlocks next))
    (kept : ∀ b, b < 32768 → marked d b = true →
      (∀ id ∈ freedByPut d ino (fileBlocks next), ¬Clears id b) → marked after b = true)
    (first : marked after firstData =
      (marked d firstData || decide (fileBlocks ino < fileBlocks next))) :
    Untouched d inum after := by
  have marks := rewritten_marks consistent file rewritten ok kept
  have inTable := getInode_lt file.found
  -- the last inode is a file afterwards only if its block is no data block of `inum`
  have away : ∀ other, other < 1024 → (other = inodeNum - 1 → marked after firstData = false) →
      11 + other / 3 ∉ references after next := by
    intro other below clear member
    have lower := (rewritten.inData _ member).1
    have isLast : other = inodeNum - 1 := by
      change other = 1023
      omega
    have marked := marks _ member
    have lastRecord : 11 + other / 3 = firstData := by rw [isLast]; rfl
    rw [lastRecord, clear isLast] at marked
    cases marked
  refine ⟨?_, ?_, ?_⟩
  · intro other otherIno different
    constructor
    · rintro ⟨found, clear⟩
      have below := getInode_lt found
      rw [rewritten.others other different (away other below clear)] at found
      refine ⟨found, fun isLast => ?_⟩
      have now := clear isLast
      rw [first, Bool.or_eq_false_iff] at now
      exact now.1
    · rintro ⟨found, clear⟩
      have below := getInode_lt found
      have stays : other = inodeNum - 1 → marked after firstData = false := by
        intro isLast
        rw [first, clear isLast, Bool.false_or, decide_eq_false_iff_not]
        intro grows
        have unused := ok.shadow grows (clear isLast)
        rw [← isLast, found] at unused
        cases unused
      refine ⟨?_, stays⟩
      rw [rewritten.others other different (away other below stays)]
      exact found
  · intro other otherIno different otherFile b member
    have otherOwned := consistent.owned other otherIno otherFile
    have lower := (otherOwned.inData b member).1
    apply rewritten.unchanged b (by omega)
    · rintro rfl
      exact consistent.record_not_referenced file otherFile member
    · intro shared
      rcases rewritten.origin b shared with old | ⟨free, -⟩
      · exact consistent.disjoint inum other ino otherIno different.symm file otherFile b
          (keptData_subset old) member
      · have was := otherOwned.marks b member
        rw [free] at was
        cases was
  · intro other otherIno different otherFile b member
    have otherOwned := consistent.owned other otherIno otherFile
    apply kept b (otherOwned.inData b member).2 (otherOwned.marks b member)
    intro id freed
    exact (ok.spares id freed).others other otherIno different otherFile b member

structure Stored (d : Disk) (inum : Nat) (ino : Inode) (buf : List UInt8) (after : Disk)
    (next : Inode) : Prop where
  untouched : Untouched d inum after
  consistent : Consistent after
  file : FileAt after inum next
  type_eq : next.type = ino.type
  size_eq : next.size.toNat = buf.length
  contents_eq : contents after next = buf

theorem map_cStr (buf : List UInt8) (uninit : Uninit) {size : Nat} (few : size ≤ buf.length) :
    (List.range size).map (cStr buf uninit) = buf.take size := by
  apply List.ext_getElem
  · rw [List.length_map, List.length_range, List.length_take, Nat.min_eq_left few]
  · intro k left right
    rw [List.length_map, List.length_range] at left
    rw [List.getElem_map, List.getElem_range, List.getElem_take]
    unfold cStr
    rw [if_pos (by omega), List.getElem?_eq_getElem (by omega), Option.getD_some]

theorem bmod_length {buf : List UInt8} (nonneg : 0 ≤ Int.bmod buf.length (2 ^ 32)) :
    Int.bmod buf.length (2 ^ 32) = ((buf.length % 2 ^ 32 : Nat) : Int) := by
  rw [Int.bmod_def] at nonneg ⊢
  split at nonneg <;> split <;> omega

theorem writeFile_consistent {d : Disk} {inum : Nat} {ino : Inode} {size : Nat} (uninit : Uninit)
    (buf : Memory) (consistent : Consistent d) (file : FileAt d inum ino)
    (ok : WriteOk d inum ino ((size + 511) / 512)) (small : size ≤ 81920) :
    ∃ after next, writeFile d uninit inum buf size = some after ∧
      Stored d inum ino ((List.range size).map buf) after next := by
  have owned := consistent.owned inum ino file
  obtain ⟨after, next, ran, rewritten, sized, bytes, kept, first⟩ :=
    writeFile_spec uninit buf file.found owned ok.last ok.toFits small
  have count : fileBlocks next = (size + 511) / 512 := by
    rw [fileBlocks_eq, sized]
  rw [← count] at ok kept first
  have untouched := rewritten_untouched consistent file rewritten ok kept first
  have marks := rewritten_marks consistent file rewritten ok kept
  have stays : FileAt after inum next := by
    refine ⟨rewritten.found, fun isLast => ?_⟩
    rw [first, ok.last isLast, Bool.false_or, decide_eq_false_iff_not]
    exact Nat.not_lt.mpr (ok.lastInode isLast)
  refine ⟨after, next, ran, untouched, ?_, stays, rewritten.type_eq, ?_, bytes⟩
  · apply untouched.consistent consistent
    · intro other otherFile
      cases otherFile.unique stays
      exact ⟨rewritten.toPlaced, marks⟩
    · intro other otherFile third thirdIno different thirdFile b member shared
      cases otherFile.unique stays
      rcases rewritten.origin b member with old | ⟨free, -⟩
      · exact consistent.disjoint inum third ino thirdIno different.symm file thirdFile b
          (keptData_subset old) shared
      · have was := (consistent.owned third thirdIno thirdFile).marks b shared
        rw [free] at was
        cases was
  · rw [sized, List.length_map, List.length_range]

theorem put_spec {d : Disk} {id : Nat} {ino : Inode} (uninit : Uninit) {buf : List UInt8}
    (consistent : Consistent d) (file : FileAt d (maskId id) ino)
    (nonneg : 0 ≤ Int.bmod buf.length (2 ^ 32)) (small : buf.length % 2 ^ 32 ≤ 81920)
    (ok : WriteOk d (maskId id) ino ((buf.length % 2 ^ 32 + 511) / 512)) :
    ∃ after next, put d uninit id buf = some after ∧
      Stored d (maskId id) ino (buf.take (buf.length % 2 ^ 32)) after next := by
  unfold put
  rw [bmod_length nonneg, ← map_cStr buf uninit (Nat.mod_le _ _)]
  exact writeFile_consistent uninit _ consistent file ok small

theorem put_missing {d : Disk} {id : Nat} (uninit : Uninit) (buf : List UInt8)
    (missing : getInode d (maskId id) = none) : put d uninit id buf = some d := by
  unfold put writeFile
  rw [missing]

theorem put_refused {d : Disk} {id : Nat} (uninit : Uninit) {buf : List UInt8}
    (large : maxfile < toUint32 (ceilInt (Int.bmod buf.length (2 ^ 32)) blockSize)) :
    put d uninit id buf = some d := by
  unfold put writeFile
  cases getInode d (maskId id) with
  | none => rfl
  | some ino => exact if_pos large

/-! ### `remove` -/

/-- What `remove_file` passes to `free_block`: for the direct blocks their
positions in the file, for the others their numbers. -/
def freedByRemove (d : Disk) (ino : Inode) : List Nat :=
  List.range (min (fileBlocks ino) 32) ++
    (List.range (fileBlocks ino - 32)).map (fun i => dataRef d ino (32 + i))

structure RemoveOk (d : Disk) (inum : Nat) (ino : Inode) : Prop where
  last : inum = inodeNum - 1 → marked d firstData = false
  spares : ∀ id ∈ freedByRemove d ino, Spares d inum [] id

theorem freedByRemove_lt {d : Disk} {ino : Inode} {id : Nat} (owned : Owned d ino)
    (member : id ∈ freedByRemove d ino) : id < 32768 := by
  rcases List.mem_append.mp member with position | entry
  · rw [List.mem_range] at position
    omega
  · obtain ⟨i, below, rfl⟩ := List.mem_map.mp entry
    rw [List.mem_range] at below
    have inFile : 32 + i < fileBlocks ino := by omega
    exact (owned.inData _ (dataRef_mem inFile)).2

theorem removeFile_eq {d : Disk} {inum : Nat} {ino : Inode} (uninit : Uninit)
    (found : getInode d inum = some ino) (owned : Owned d ino) :
    removeFile d uninit inum =
      some (putInode (freeAll d (freedByRemove d ino)) inum { ino with type := 0, size := 0 }) := by
  have few := owned.readable.fileBlocks_le
  have small : ∀ id ∈ List.range (min (fileBlocks ino) 32), id < 32768 := by
    intro id member
    rw [List.mem_range] at member
    omega
  have original : ceil ino.size.toNat blockSize = fileBlocks ino := rfl
  have stays : ∀ ids, (∀ id ∈ ids, id < 32768) →
      freeInode (freeAll d ids) inum =
        putInode (freeAll d ids) inum { ino with type := 0, size := 0 } := by
    intro ids onDisk
    unfold freeInode
    rw [getInode_congr (freeAll_other onDisk (by omega)), found]
  have direct : (List.range (min (fileBlocks ino) ndirect)).foldl (fun d id => freeBlock d id) d =
      freeAll d (List.range (min (fileBlocks ino) 32)) := rfl
  unfold removeFile
  rw [found]
  simp only [original, direct]
  by_cases indirect : 32 < fileBlocks ino
  · have index := owned.inData _ (indexBlock_mem indirect)
    have rest : fileBlocks ino - min (fileBlocks ino) ndirect = fileBlocks ino - 32 := by
      rw [ndirect_eq]
      omega
    have sameBlock : (freeAll d (List.range (min (fileBlocks ino) 32))).blocks ino.indexBlock =
        d.blocks ino.indexBlock := freeAll_other small (by omega)
    have buffer : (freeAll d (List.range (min (fileBlocks ino) 32))).readBlock ino.indexBlock
        uninit.indirectBlocks 0 = d.readBlock ino.indexBlock uninit.indirectBlocks 0 := by
      unfold Disk.readBlock
      rw [sameBlock]
    have usesIndex : ndirect < fileBlocks ino := indirect
    have indirectFew : fileBlocks ino - 32 ≤ 128 := by omega
    rw [if_pos usesIndex, buffer, rest,
      freeIndirect_eq uninit.indirectBlocks indirectFew index.2,
      ← freeAll_append]
    exact congrArg some (stays _ (fun id member => freedByRemove_lt owned member))
  · have whole : freedByRemove d ino = List.range (min (fileBlocks ino) 32) := by
      unfold freedByRemove
      rw [Nat.sub_eq_zero_of_le (by omega), List.range_zero, List.map_nil, List.append_nil]
    have noIndexBlock : ¬ndirect < fileBlocks ino := indirect
    rw [if_neg noIndexBlock, whole]
    exact congrArg some (stays _ small)

structure Removed (d : Disk) (inum : Nat) (after : Disk) : Prop where
  untouched : Untouched d inum after
  consistent : Consistent after
  gone : getInode after inum = none

theorem remove_spec {d : Disk} {id : Nat} {ino : Inode} (uninit : Uninit)
    (consistent : Consistent d) (file : FileAt d (maskId id) ino)
    (ok : RemoveOk d (maskId id) ino) :
    ∃ after, remove d uninit id = some after ∧ Removed d (maskId id) after := by
  have owned := consistent.owned _ ino file
  have inTable := getInode_lt file.found
  have onDisk : ∀ freed ∈ freedByRemove d ino, freed < 32768 :=
    fun freed member => freedByRemove_lt owned member
  have records : ∀ other, other ≠ maskId id → getInode (putInode (freeAll d (freedByRemove d ino))
      (maskId id) { ino with type := 0, size := 0 }) other = getInode d other := by
    intro other different
    rw [getInode_putInode_other _ _ inTable different]
    exact getInode_congr (freeAll_other onDisk (by omega))
  have bitmap : ∀ b, b < 32768 → marked (putInode (freeAll d (freedByRemove d ino)) (maskId id)
      { ino with type := 0, size := 0 }) b = marked (freeAll d (freedByRemove d ino)) b := by
    intro b small
    apply marked_congr
    apply putInode_other
    rw [bblock_eq]
    omega
  have gone : getInode (putInode (freeAll d (freedByRemove d ino)) (maskId id)
      { ino with type := 0, size := 0 }) (maskId id) = none := by
    rw [getInode_putInode_self _ _ inTable]
    exact if_pos rfl
  have first : marked (putInode (freeAll d (freedByRemove d ino)) (maskId id)
      { ino with type := 0, size := 0 }) firstData = marked d firstData := by
    rw [bitmap _ (by rw [firstData_eq]; omega), marked_firstData_freeAll]
  have untouched : Untouched d (maskId id) (putInode (freeAll d (freedByRemove d ino)) (maskId id)
      { ino with type := 0, size := 0 }) := by
    refine ⟨?_, ?_, ?_⟩
    · intro other otherIno different
      constructor
      · rintro ⟨found, clear⟩
        rw [records other different] at found
        rw [first] at clear
        exact ⟨found, clear⟩
      · rintro ⟨found, clear⟩
        rw [← records other different] at found
        rw [← first] at clear
        exact ⟨found, clear⟩
    · intro other otherIno different otherFile b member
      have lower := ((consistent.owned other otherIno otherFile).inData b member).1
      rw [putInode_other _ _ ?_]
      · exact freeAll_other onDisk (by omega)
      · rintro rfl
        exact consistent.record_not_referenced file otherFile member
    · intro other otherIno different otherFile b member
      have otherOwned := consistent.owned other otherIno otherFile
      rw [bitmap b (otherOwned.inData b member).2]
      apply marked_freeAll (otherOwned.marks b member)
      intro freed freedMember
      exact (ok.spares freed freedMember).others other otherIno different otherFile b member
  refine ⟨_, removeFile_eq uninit file.found owned, untouched, ?_, gone⟩
  apply untouched.consistent consistent
  · intro other otherFile
    have found := otherFile.found
    rw [gone] at found
    cases found
  · intro other otherFile
    have found := otherFile.found
    rw [gone] at found
    cases found

theorem remove_missing {d : Disk} {id : Nat} (uninit : Uninit)
    (missing : getInode d (maskId id) = none) : remove d uninit id = some d := by
  unfold remove removeFile
  rw [missing]

end CseLab.FileSystem
