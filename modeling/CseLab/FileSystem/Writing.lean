import CseLab.FileSystem.Serving
import CseLab.FileSystem.Isolation

/-! What a handler that writes has done to the other files at each of its accesses:
nothing. It writes bitmap blocks, records of its own inode, and blocks that no other
file has. -/

namespace CseLab.FileSystem

open ByteMemory Interleaving Transition

section Writer

variable {d state : Disk} {target : Option Nat} {inum : Nat} {ino : Inode}

/-! ### What a handler leaves of the other files -/

def Keeps (d : Disk) (target : Option Nat) (state : Disk) : Prop :=
  ∀ other ino, target ≠ some other → FileAt d other ino →
    getInode state other = some ino ∧ ∀ b ∈ references d ino, state.blocks b = d.blocks b

/-- No file but the one with the number has its record or a block there. -/
def Away (d : Disk) (target : Option Nat) (id : Nat) : Prop :=
  ∀ other ino, target ≠ some other → FileAt d other ino →
    11 + other / 3 ≠ id ∧ id ∉ references d ino

def OnBitmap (d state : Disk) : Prop := ∀ b, 10 ≤ b → state.blocks b = d.blocks b

/-- Only blocks of the bitmap have been written, and no mark is cleared. -/
structure Allocating (d state : Disk) : Prop where
  bitmap : OnBitmap d state
  marks : ∀ b, marked d b = true → marked state b = true

theorem Keeps.start (d : Disk) (target : Option Nat) : Keeps d target d :=
  fun _other _ino _different file => ⟨file.found, fun _b _member => rfl⟩

theorem Keeps.write (kept : Keeps d target state) {id : Nat} (away : Away d target id)
    (buf : Memory) : Keeps d target (state.writeBlock id buf) := by
  intro other ino different file
  obtain ⟨found, blocks⟩ := kept other ino different file
  obtain ⟨record, unused⟩ := away other ino different file
  constructor
  · rw [getInode_congr (Disk.writeBlock_other state buf record)]
    exact found
  · intro b member
    have apart : b ≠ id := by
      rintro rfl
      exact unused member
    rw [Disk.writeBlock_other state buf apart]
    exact blocks b member

theorem OnBitmap.keeps (same : OnBitmap d state) (consistent : Consistent d) :
    Keeps d target state := by
  intro other ino _different file
  constructor
  · rw [getInode_congr (same _ (by omega))]
    exact file.found
  · intro b member
    have lower := ((consistent.owned other ino file).inData b member).1
    exact same b (by omega)

theorem Allocating.start (d : Disk) : Allocating d d :=
  ⟨fun _b _outside => rfl, fun _b was => was⟩

theorem Allocating.alloc (allocating : Allocating d state) :
    Allocating d (allocBlock state).2 where
  bitmap := fun b outside => (allocBlock_other state outside).trans (allocating.bitmap b outside)
  marks := fun b was => marked_allocBlock_mono (allocating.marks b was)

theorem OnBitmap.free (same : OnBitmap d state) {id : Nat} (onDisk : id < 32768) :
    OnBitmap d (freeBlock state id) := by
  intro b outside
  rw [freeBlock_other state (by rw [bblock_eq]; omega)]
  exact same b outside

theorem Consistent.away_free (consistent : Consistent d) {id : Nat} (lower : 352 ≤ id)
    (clear : marked d id = false)
    (shadow : marked d firstData = false → getInode d (inodeNum - 1) = none) :
    Away d target id := by
  intro other ino _different file
  constructor
  · intro here
    have below := getInode_lt file.found
    have isLast : other = inodeNum - 1 := by
      change other = 1023
      omega
    have first : id = firstData := by
      rw [← here, isLast]
      rfl
    have unused := shadow (first ▸ clear)
    rw [← isLast, file.found] at unused
    cases unused
  · intro member
    have marks := (consistent.owned other ino file).marks id member
    rw [clear] at marks
    cases marks

theorem Consistent.away_own (consistent : Consistent d) (file : FileAt d inum ino) {id : Nat}
    (member : id ∈ references d ino) : Away d (some inum) id := by
  intro other otherIno different otherFile
  constructor
  · rintro rfl
    exact consistent.record_not_referenced otherFile file member
  · exact consistent.disjoint inum other ino otherIno (fun same => different (congrArg some same))
      file otherFile id member

theorem Allocating.away (allocating : Allocating d state) (consistent : Consistent d)
    (shadow : marked d firstData = false → getInode d (inodeNum - 1) = none) :
    Away d target (allocBlock state).1 := by
  rcases allocBlock_spec state with full | ⟨id, lower, -, clear, allocated⟩
  · intro other ino _different file
    rw [full]
    refine ⟨by omega, fun member => ?_⟩
    have low := ((consistent.owned other ino file).inData 0 member).1
    omega
  · rw [allocated]
    apply consistent.away_free lower _ shadow
    by_contra marks
    have still := allocating.marks id (Bool.eq_true_of_not_eq_false marks)
    rw [clear] at still
    cases still

theorem Keeps.putInode (kept : Keeps d (some inum) state) (consistent : Consistent d)
    (file : FileAt d inum ino) (next : Inode) :
    Keeps d (some inum) (putInode state inum next) := by
  intro other otherIno different otherFile
  obtain ⟨found, blocks⟩ := kept other otherIno different otherFile
  constructor
  · rw [getInode_putInode_other state next (getInode_lt file.found)
      (fun same => different (congrArg some same.symm))]
    exact found
  · intro b member
    have apart : b ≠ 11 + inum / 3 := by
      rintro rfl
      exact consistent.record_not_referenced file otherFile member
    rw [putInode_other state next apart]
    exact blocks b member

/-! ### The accesses of the block layer -/

variable {kept : Disk → Prop} {buf : Memory} {Result : Type}

theorem always_readBlock {id offset : Nat} {next : Memory → DiskScript Result}
    (holds : kept state)
    (goes : (next (state.readBlock id buf offset)).Always Disk.act kept state) :
    (Stepwise.readBlock id buf offset >>= next).Always Disk.act kept state := ⟨holds, goes⟩

theorem always_writeBlock {id : Nat} (holds : kept state)
    (after : kept (state.writeBlock id buf)) :
    (Stepwise.writeBlock id buf).Always Disk.act kept state := ⟨holds, after⟩

theorem always_getInode {result : Option Inode} {next : Option Inode → DiskScript Result}
    (holds : kept state) (found : getInode state inum = result)
    (goes : (next result).Always Disk.act kept state) :
    (Stepwise.getInode inum >>= next).Always Disk.act kept state := by
  subst found
  unfold getInode at goes
  unfold Stepwise.getInode
  by_cases outside : inodeNum ≤ inum
  · rw [if_pos outside] at goes ⊢
    exact goes
  · rw [if_neg outside] at goes ⊢
    exact ⟨holds, goes⟩

theorem always_putInode (holds : kept state) (after : kept (putInode state inum ino)) :
    (Stepwise.putInode inum ino).Always Disk.act kept state := ⟨holds, holds, after⟩

theorem always_freeBlock {id : Nat} (holds : kept state) (after : kept (freeBlock state id)) :
    (Stepwise.freeBlock id).Always Disk.act kept state := ⟨holds, holds, after⟩

theorem always_allocLoop (count i j : Nat) (holds : kept state)
    (after : kept (allocLoop state count i j).2) :
    (Stepwise.allocLoop count i j).Always Disk.act kept state := by
  induction count generalizing i j with
  | zero => exact holds
  | succ count ih =>
      unfold Stepwise.allocLoop
      apply always_readBlock holds
      unfold allocLoop at after
      dsimp only at after
      cases search : (List.range' j (bpb - j)).find?
          (fun bit => !notFree (state.readBlock i (fun _ => 0) 0) bit) with
      | none =>
          rw [search] at after
          exact ih (i + 1) 0 after
      | some bit =>
          rw [search] at after
          exact ⟨holds, after⟩

theorem always_allocBlock (allocating : Allocating d state) :
    Stepwise.allocBlock.Always Disk.act (Allocating d) state :=
  always_allocLoop _ _ _ allocating allocating.alloc

/-! ### `write_file` -/

theorem always_allocDirect (ino : Inode) (allocating : Allocating d state)
    (originalBlock count : Nat) :
    (Stepwise.allocDirect ino originalBlock count).Always Disk.act (Allocating d) state := by
  unfold Stepwise.allocDirect
  apply Script.always_foldlM allocating
  intro i _member ino later allocating
  apply Script.Always.bind (always_allocBlock allocating)
  intro last id _ran allocated
  exact Script.always_ofOption allocated

theorem always_allocIndirect (allocating : Allocating d state) (indirectBlocks : Memory)
    (i limit : Nat) :
    (Stepwise.allocIndirect indirectBlocks i limit).Always Disk.act (Allocating d) state := by
  unfold Stepwise.allocIndirect
  apply Script.always_foldlM allocating
  intro i _member indirectBlocks later allocating
  apply Script.Always.bind (always_allocBlock allocating)
  intro last id _ran allocated
  exact Script.always_ofOption allocated

theorem always_growFile (consistent : Consistent d) (uninit : Uninit) {blockCount : Nat}
    (direct : fileBlocks ino ≤ 32)
    (shadow : marked d firstData = false → getInode d (inodeNum - 1) = none) :
    (Stepwise.growFile uninit ino (fileBlocks ino) blockCount).Always Disk.act
      (Keeps d target) d := by
  have weak : ∀ state, Allocating d state → Keeps d target state :=
    fun _state allocating => allocating.bitmap.keeps consistent
  unfold Stepwise.growFile
  dsimp only
  have first := always_allocDirect ino (Allocating.start d) (fileBlocks ino)
    (subUint32 (min blockCount ndirect) (fileBlocks ino))
  apply Script.Always.bind (first.weaken weak)
  intro after grown ran kept
  have allocating := first.ends ran
  by_cases large : ndirect < blockCount
  · have noIndex : fileBlocks ino ≤ ndirect := direct
    rw [if_pos large, if_pos noIndex]
    apply Script.Always.bind ((always_allocBlock allocating).weaken weak)
    intro next id allocated _kept
    rw [Stepwise.alone_allocBlock] at allocated
    cases allocated
    apply Script.Always.bind (Script.always_ofOption (weak _ allocating.alloc))
    intro same indexed set _kept
    rw [Script.alone_ofOption] at set
    obtain ⟨blocks, isSet, address⟩ := grown.setBlock_spec (i := 32) (by omega)
      (allocBlock_lt after)
    change (grown.setBlock 32 (allocBlock after).1).map _ = _ at set
    rw [isSet] at set
    cases set
    have entries := always_allocIndirect allocating.alloc uninit.indirectBlocks 0
      (blockCount - ndirect)
    apply Script.Always.bind (entries.weaken weak)
    intro last indirectBlocks _ran keptLast
    apply Script.Always.bind
    · apply always_writeBlock keptLast
      apply keptLast.write
      rw [Inode.indexBlock_eq, address, if_pos rfl]
      exact allocating.away consistent shadow
    · intro done _ _ran keptDone
      exact keptDone
  · rw [if_neg large]
    exact kept

theorem OnBitmap.indirectEntry (same : OnBitmap d state) (owned : Owned d ino) (buf : Memory)
    {i : Nat} (below : 32 + i < fileBlocks ino) :
    indirectEntry (state.readBlock ino.indexBlock buf 0) i = some (dataRef d ino (32 + i)) := by
  have few := owned.readable.fileBlocks_le
  have index := owned.inData _ (indexBlock_mem (by omega))
  rw [indirectEntry_readBlock buf index.2 (by omega),
    dataRef_of_indexBlock (same ino.indexBlock (by omega))]

theorem always_freeIndirect (owned : Owned d ino) (same : OnBitmap d state)
    {indirectBlocks : Memory} {limit : Nat} (few : 32 + limit ≤ fileBlocks ino)
    (entries : ∀ i, i < limit →
      indirectEntry indirectBlocks i = some (dataRef d ino (32 + i))) :
    (Stepwise.freeIndirect indirectBlocks 0 limit).Always Disk.act (OnBitmap d) state := by
  unfold Stepwise.freeIndirect
  apply Script.always_foldlM same
  intro i member _unit later keptLater
  rw [List.mem_range'_1] at member
  rw [entries i (by omega)]
  have onDisk := (owned.inData _ (dataRef_mem (show 32 + i < fileBlocks ino by omega))).2
  exact always_freeBlock keptLater (keptLater.free onDisk)

theorem always_shrinkFile (owned : Owned d ino) (uninit : Uninit) {blockCount : Nat}
    (direct : blockCount ≤ 32) (shrinks : blockCount ≤ fileBlocks ino) :
    (Stepwise.shrinkFile uninit ino (fileBlocks ino) blockCount).Always Disk.act
      (OnBitmap d) d := by
  have few := owned.readable.fileBlocks_le
  have limit : subUint32 (min (fileBlocks ino) ndirect) blockCount =
      min (fileBlocks ino) 32 - blockCount := by
    rw [ndirect_eq, subUint32_eq (by omega) (by omega)]
  unfold Stepwise.shrinkFile
  simp only [limit]
  apply Script.Always.bind
  · apply Script.always_foldlM (fun _b _outside => rfl)
    intro i member _unit later keptLater
    rw [List.mem_range] at member
    exact always_freeBlock keptLater (keptLater.free (by omega))
  · intro after _unit _ran kept
    by_cases used : 32 < fileBlocks ino
    · have usesIndex : ndirect < fileBlocks ino := used
      have noIndexAfter : ¬ndirect < blockCount := Nat.not_lt.mpr direct
      rw [if_pos usesIndex]
      apply always_readBlock kept
      rw [if_neg noIndexAfter]
      have index := owned.inData _ (indexBlock_mem used)
      have freed := kept.free index.2
      apply Script.Always.bind (always_freeBlock kept freed)
      intro last _unit ran _kept
      rw [Stepwise.alone_freeBlock] at ran
      cases ran
      change 32 < fileBlocks ino at usesIndex
      exact always_freeIndirect owned freed (by rw [ndirect_eq]; omega)
        (fun i below => kept.indirectEntry owned uninit.indirectBlocks
          (by rw [ndirect_eq] at below; omega))
    · have noIndex : ¬ndirect < fileBlocks ino := used
      rw [if_neg noIndex]
      exact kept

/-! The data transfer writes the blocks of the inode. -/

theorem always_writeDirect (kept : Keeps d target state) (buf : Memory) {limit : Nat}
    (direct : limit ≤ 32) (away : ∀ n, n < limit → Away d target (ino.blockAt n)) :
    (Stepwise.writeDirect ino buf limit).Always Disk.act (Keeps d target) state := by
  unfold Stepwise.writeDirect
  apply Script.always_foldlM kept
  intro i member _unit later keptLater
  rw [List.mem_range] at member
  rw [ino.block_eq (by omega)]
  exact always_writeBlock keptLater (keptLater.write (away i member) _)

theorem always_writeIndirect (kept : Keeps d target state) (indirectBlocks buf : Memory)
    {limit count : Nat} (refs : Nat → Nat)
    (entries : ∀ i, i < count → indirectEntry indirectBlocks i = some (refs i))
    (away : ∀ i, i < count → Away d target (refs i)) :
    (Stepwise.writeIndirect indirectBlocks buf limit count).Always Disk.act (Keeps d target)
      state := by
  unfold Stepwise.writeIndirect
  apply Script.always_foldlM kept
  intro i member _unit later keptLater
  rw [List.mem_range] at member
  rw [entries i member]
  exact always_writeBlock keptLater (keptLater.write (away i member) _)

theorem always_writeData (placed : Placed state ino) (kept : Keeps d target state)
    (away : ∀ b ∈ references state ino, Away d target b) (uninit : Uninit) (buf : Memory) :
    (Stepwise.writeData uninit ino (fileBlocks ino) buf).Always Disk.act (Keeps d target)
      state := by
  have most := placed.readable.fileBlocks_le
  have written : ∀ n, n < fileBlocks ino → Away d target (dataRef state ino n) :=
    fun n below => away _ (dataRef_mem below)
  unfold Stepwise.writeData
  dsimp only
  rw [ndirect_eq]
  apply Script.Always.bind
  · apply always_writeDirect kept buf (Nat.min_le_right _ _)
    intro n below
    rw [← dataRef_direct state ino (by omega)]
    exact written n (by omega)
  · intro middle _unit ran keptMiddle
    by_cases small : fileBlocks ino ≤ 32
    · rw [if_pos small]
      exact keptMiddle
    · rw [if_neg small]
      apply always_readBlock keptMiddle
      obtain ⟨_after, wrote, direct⟩ := writeDirect_spec placed buf (min (fileBlocks ino) 32)
        (by omega) (by omega)
      rw [Stepwise.alone_writeDirect, wrote] at ran
      cases ran
      have index := (placed.inData _ (indexBlock_mem (by omega))).2
      have sameIndex : middle.blocks ino.indexBlock = state.blocks ino.indexBlock :=
        direct.others _ (fun n below => placed.index_ne (by omega) n (by omega))
      apply always_writeIndirect keptMiddle _ _ (fun i => dataRef state ino (32 + i))
      · intro i below
        rw [indirectEntry_readBlock uninit.indirectBlocksAgain index (by omega),
          dataRef_of_indexBlock sameIndex]
      · intro i below
        exact written _ (by omega)

theorem always_commit (consistent : Consistent d) (file : FileAt d inum ino) {next : Inode}
    (reshaped : Reshaped d ino state next) (kept : Keeps d (some inum) state)
    (shadow : ∀ b ∈ references state next, marked d b = false →
      marked d firstData = false → getInode d (inodeNum - 1) = none)
    (record : 11 + inum / 3 ∉ references state next) {blockCount : Nat}
    (count : fileBlocks next = blockCount) (uninit : Uninit) (buf : Memory) :
    (Stepwise.putInode inum next >>= fun _ =>
      Stepwise.writeData uninit next blockCount buf).Always Disk.act (Keeps d (some inum))
        state := by
  subst count
  have keptRecord := kept.putInode consistent file next
  apply Script.Always.bind (always_putInode kept keptRecord)
  intro after _unit ran _kept
  rw [Stepwise.alone_putInode] at ran
  cases ran
  apply always_writeData (reshaped.toPlaced.putInode record) keptRecord
  intro b member
  rw [references_congr (putInode_references record)] at member
  rcases reshaped.origin b member with old | ⟨clear, -⟩
  · exact consistent.away_own file (keptData_subset old)
  · exact consistent.away_free (reshaped.inData b member).1 clear (shadow b member clear)

theorem always_writeFile (consistent : Consistent d) (file : FileAt d inum ino) (uninit : Uninit)
    (buf : Memory) {size : Nat} (small : size ≤ 81920)
    (ok : WriteOk d inum ino ((size + 511) / 512)) :
    (Stepwise.writeFile uninit inum buf size).Always Disk.act (Keeps d (some inum)) d := by
  have owned := consistent.owned inum ino file
  have inTable := getInode_lt file.found
  have size32 : (UInt32.ofNat (toUint32 size)).toNat = size := toNat_toUint32 (by omega)
  have counted : ((UInt32.ofNat (toUint32 size)).toNat + 511) / 512 = (size + 511) / 512 := by
    rw [size32]
  have int : size < 2 ^ 31 := by omega
  have original : ceil ino.size.toNat blockSize = fileBlocks ino := rfl
  have allowed : ¬maxfile < (size + 511) / 512 := by rw [maxfile_eq]; omega
  unfold Stepwise.writeFile
  apply always_getInode (Keeps.start d (some inum)) file.found
  simp only [toUint32_ceilInt int, original]
  rw [if_neg allowed]
  by_cases grows : fileBlocks ino < (size + 511) / 512
  · rw [if_pos grows]
    have direct : fileBlocks ino ≤ 32 := by
      rcases ok.oneSide with old | new <;> omega
    have notLast : inum ≠ inodeNum - 1 := fun same => by
      have := ok.lastInode same
      omega
    apply Script.Always.bind (always_growFile consistent uninit direct (ok.shadow grows))
    intro middle next grown kept
    obtain ⟨reached, blocks, ran, reshaped, -, -⟩ := growFile_spec uninit owned direct grows
      (by omega) counted (ok.succeed grows)
    rw [Stepwise.alone_growFile, ran] at grown
    cases grown
    apply always_commit consistent file reshaped kept (fun _b _member _clear => ok.shadow grows)
      _ ((fileBlocks_eq _).trans counted)
    intro member
    have lower := (reshaped.inData _ member).1
    change inum ≠ 1023 at notLast
    omega
  · have shrinks : (size + 511) / 512 ≤ fileBlocks ino := by omega
    have direct : (size + 511) / 512 ≤ 32 := by
      rcases ok.oneSide with old | new <;> omega
    rw [if_neg grows]
    have shrunk := always_shrinkFile owned uninit direct shrinks
    have weak : ∀ state, OnBitmap d state → Keeps d (some inum) state :=
      fun _state same => same.keeps consistent
    apply Script.Always.bind (shrunk.weaken weak)
    intro middle _unit ended kept
    rw [Stepwise.alone_shrinkFile, shrinkFile_eq uninit owned direct shrinks] at ended
    cases ended
    rw [Script.pure_eq, Script.ret_bind]
    obtain ⟨reshaped, subset⟩ := shrink_reshaped owned direct shrinks counted
    apply always_commit consistent file reshaped kept _ _ ((fileBlocks_eq _).trans counted)
    · intro b member clear
      have marks := owned.marks b (keptData_subset (subset b member))
      rw [clear] at marks
      cases marks
    · exact fun member =>
        consistent.record_not_referenced file file (keptData_subset (subset _ member))

theorem always_put (consistent : Consistent d) {id : Nat} {buf : List UInt8} {uninit : Uninit}
    (ok : StepOk d (.put id buf uninit)) :
    (Stepwise.put uninit id buf).Always Disk.act (Keeps d (some (maskId id))) d := by
  unfold Stepwise.put
  cases found : getInode d (maskId id) with
  | none =>
      unfold Stepwise.writeFile
      exact always_getInode (Keeps.start d _) found (Keeps.start d _)
  | some ino =>
      by_cases fits : toUint32 (ceilInt (Int.bmod buf.length (2 ^ 32)) blockSize) ≤ maxfile
      · obtain ⟨nonneg, writes⟩ := ok ino found fits
        have small := size_small nonneg fits
        rw [bmod_length nonneg]
        exact always_writeFile consistent ⟨found, writes.last⟩ uninit _ small writes
      · unfold Stepwise.writeFile
        apply always_getInode (Keeps.start d _) found
        dsimp only
        rw [if_pos (Nat.lt_of_not_le fits)]
        exact Keeps.start d _

/-! ### `remove_file` and `alloc_inode` -/

theorem always_freeInode (consistent : Consistent d) (file : FileAt d inum ino)
    (same : OnBitmap d state) :
    (Stepwise.freeInode inum).Always Disk.act (Keeps d (some inum)) state := by
  have kept : Keeps d (some inum) state := same.keeps consistent
  have found : getInode state inum = some ino :=
    (getInode_congr (same _ (by omega))).trans file.found
  unfold Stepwise.freeInode
  apply always_getInode kept found
  exact always_putInode kept (kept.putInode consistent file _)

theorem always_removeFile (consistent : Consistent d) (file : FileAt d inum ino)
    (uninit : Uninit) :
    (Stepwise.removeFile uninit inum).Always Disk.act (Keeps d (some inum)) d := by
  have owned := consistent.owned inum ino file
  have weak : ∀ state, OnBitmap d state → Keeps d (some inum) state :=
    fun _state same => same.keeps consistent
  have original : ceil ino.size.toNat blockSize = fileBlocks ino := rfl
  unfold Stepwise.removeFile
  apply always_getInode (Keeps.start d (some inum)) file.found
  dsimp only
  rw [original, ndirect_eq]
  have direct : ((List.range (min (fileBlocks ino) 32)).foldlM
      (fun _ id => Stepwise.freeBlock id) ()).Always Disk.act (OnBitmap d) d := by
    apply Script.always_foldlM (fun _b _outside => rfl)
    intro id member _unit later keptLater
    rw [List.mem_range] at member
    exact always_freeBlock keptLater (keptLater.free (by omega))
  apply Script.Always.bind (direct.weaken weak)
  intro middle _unit ran _kept
  have keptMiddle := direct.ends ran
  by_cases used : 32 < fileBlocks ino
  · rw [if_pos used]
    have indirect : (Stepwise.readBlock ino.indexBlock uninit.indirectBlocks 0 >>= fun entries =>
        Stepwise.freeIndirect entries 0 (fileBlocks ino - min (fileBlocks ino) 32)).Always
          Disk.act (OnBitmap d) middle := by
      apply always_readBlock keptMiddle
      exact always_freeIndirect owned keptMiddle (by omega)
        (fun i below => keptMiddle.indirectEntry owned uninit.indirectBlocks (by omega))
    apply Script.Always.bind (indirect.weaken weak)
    intro last _unit ranLast _kept
    exact always_freeInode consistent file (indirect.ends ranLast)
  · rw [if_neg used]
    exact always_freeInode consistent file keptMiddle

theorem always_remove (consistent : Consistent d) {id : Nat} {uninit : Uninit}
    (ok : StepOk d (.remove id uninit)) :
    (Stepwise.remove uninit id).Always Disk.act (Keeps d (some (maskId id))) d := by
  unfold Stepwise.remove
  cases found : getInode d (maskId id) with
  | none =>
      unfold Stepwise.removeFile
      exact always_getInode (Keeps.start d _) found (Keeps.start d _)
  | some ino => exact always_removeFile consistent ⟨found, (ok ino found).last⟩ uninit

theorem always_freeNumber (holds : kept state) (inums : List Nat) :
    (Stepwise.freeNumber inums).Always Disk.act kept state := by
  induction inums with
  | nil => exact holds
  | cons inum rest ih =>
      unfold Stepwise.freeNumber
      apply always_getInode holds rfl
      cases getInode state inum with
      | none => exact holds
      | some ino => exact ih

theorem always_create (consistent : Consistent d) {type : FileType} {uninit : Uninit}
    (ok : CreateOk d) :
    (Stepwise.create uninit type).Always Disk.act (Keeps d none) d := by
  unfold Stepwise.create Stepwise.allocInode
  apply Script.Always.bind (always_freeNumber (Keeps.start d none) _)
  intro after result ran kept
  rw [Stepwise.alone_freeNumber] at ran
  cases ran
  have created := create_spec consistent uninit type ok
  unfold create allocInode at created
  cases search : (List.range' 1 (sb.ninodes - 1)).find?
      (fun inum => (getInode d inum).isNone) with
  | none => exact kept
  | some inum =>
      rw [search] at created
      apply Script.Always.bind
      · apply always_putInode kept
        rcases created with full | ⟨number, last, allocated, made⟩
        · obtain ⟨-, same⟩ := Prod.mk.inj full
          exact same.symm ▸ kept
        · cases allocated
          intro other ino _different file
          have different : other ≠ inum := by
            rintro rfl
            have missing := made.fresh
            rw [file.found] at missing
            cases missing
          exact ⟨((made.untouched.files other ino different).mpr file).found,
            made.untouched.blocks other ino different file⟩
      · intro last _unit _ran keptLast
        exact keptLast

theorem always_serve (consistent : Consistent d) {request : Request}
    (changes : request.writes = true) (ok : StepOk d request) :
    (Stepwise.serve request).Always Disk.act (Keeps d request.target) d := by
  cases request with
  | create type uninit =>
      apply Script.Always.bind (always_create consistent ok)
      exact fun _after _id _ran keeps => keeps
  | put id buf uninit =>
      apply Script.Always.bind (always_put consistent ok)
      exact fun _after _unit _ran keeps => keeps
  | get id uninit => cases changes
  | getattr id => cases changes
  | remove id uninit =>
      apply Script.Always.bind (always_remove consistent ok)
      exact fun _after _unit _ran keeps => keeps

end Writer

end CseLab.FileSystem
