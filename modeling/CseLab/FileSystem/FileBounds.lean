import CseLab.FileSystem.FileAccess
import CseLab.FileSystem.LastBlock

/-! Which calls of `read_file` and `write_file` stay in bounds. A loop bound
wraps where the block counts before and after are both past the direct blocks,
and the last block of a file is taken from the caller's buffer whole. -/

namespace CseLab.FileSystem

open ByteMemory Bounds Logged

/-! ### Single accesses -/

theorem all_transfer {id place capacity : Nat} :
    (transfer id place capacity).All FileAccess.InBounds ↔
      (id < 32768 → 512 * place + 512 ≤ capacity) := by
  unfold transfer
  rw [blockNum_eq]
  by_cases onDisk : id < 32768
  · rw [if_pos onDisk, all_tell]
    exact ⟨fun fits _ => fits, fun fits => fits onDisk⟩
  · rw [if_neg onDisk]
    exact iff_of_true (all_ofOption _) (fun below => absurd below onDisk)

theorem all_blockLogged {ino : Inode} {i : Nat} :
    (ino.blockLogged i).All FileAccess.InBounds ↔ i ≤ 32 := by
  unfold Inode.blockLogged
  rw [bind_eq, all_tell_bind]
  exact and_iff_left (all_ofOption _)

theorem all_setBlockLogged {ino : Inode} {i id : Nat} :
    (ino.setBlockLogged i id).All FileAccess.InBounds ↔ i ≤ 32 := by
  unfold Inode.setBlockLogged
  rw [bind_eq, all_tell_bind]
  exact and_iff_left (all_ofOption _)

theorem all_indexBlockLogged (ino : Inode) :
    ino.indexBlockLogged.All FileAccess.InBounds := by
  unfold Inode.indexBlockLogged
  rw [bind_eq, all_tell_bind]
  exact ⟨Nat.le_refl 32, all_ofOption _⟩

theorem all_indirectEntryLogged {indirectBlocks : Memory} {i : Nat} :
    (indirectEntryLogged indirectBlocks i).All FileAccess.InBounds ↔ i < 128 := by
  unfold indirectEntryLogged
  rw [bind_eq, all_tell_bind]
  exact and_iff_left (all_ofOption _)

theorem all_setIndirectEntryLogged {indirectBlocks : Memory} {i id : Nat} :
    (setIndirectEntryLogged indirectBlocks i id).All FileAccess.InBounds ↔ i < 128 := by
  unfold setIndirectEntryLogged
  rw [bind_eq, all_tell_bind]
  exact and_iff_left (all_ofOption _)

/-! ### `read_file` -/

theorem all_readDirectLogged (d : Disk) (ino : Inode) (bufOut : Memory) {limit capacity : Nat}
    (direct : limit ≤ 32) (room : 512 * limit ≤ capacity) :
    (readDirectLogged d ino bufOut limit capacity).All FileAccess.InBounds := by
  apply all_fold
  intro bufOut i member
  have below := List.mem_range.mp member
  rw [bind_eq, all_bind, all_blockLogged]
  refine ⟨by omega, fun id _ => ?_⟩
  rw [bind_eq, all_bind, all_transfer]
  exact ⟨fun _ => by omega, fun _ _ => all_ofOption _⟩

theorem all_readIndirectLogged (d : Disk) (indirectBlocks bufOut : Memory)
    {limit count capacity : Nat} (few : count ≤ 128) (room : 512 * (limit + count) ≤ capacity) :
    (readIndirectLogged d indirectBlocks bufOut limit count capacity).All FileAccess.InBounds := by
  apply all_fold
  intro bufOut i member
  have below := List.mem_range.mp member
  rw [bind_eq, all_bind, all_indirectEntryLogged]
  refine ⟨by omega, fun id _ => ?_⟩
  rw [bind_eq, all_bind, all_transfer]
  exact ⟨fun _ => by omega, fun _ _ => all_ofOption _⟩

theorem all_readFileLogged {d : Disk} (uninit : Uninit) {inum : Nat} {ino : Inode}
    (found : getInode d inum = some ino) (live : ino.size.toNat ≤ 81920) :
    (readFileLogged d uninit inum).All FileAccess.InBounds := by
  have few : ceil ino.size.toNat blockSize ≤ 160 := by
    rw [ceil_eq]
    omega
  unfold readFileLogged
  rw [found]
  simp only [bind_eq, pure_eq]
  generalize ceil ino.size.toNat blockSize = blockCount at few
  have room : 512 * min blockCount ndirect ≤ blockCount * blockSize := by
    rw [ndirect_eq]
    change _ ≤ blockCount * 512
    omega
  rw [all_bind]
  refine ⟨all_readDirectLogged d ino _ (by rw [ndirect_eq]; omega) room, fun bufOut _ => ?_⟩
  split
  · exact all_ofOption _
  · rename_i past
    rw [ndirect_eq] at past ⊢
    rw [Nat.min_eq_right (by omega), all_bind]
    refine ⟨all_indexBlockLogged ino, fun index _ => ?_⟩
    rw [all_tell_bind, all_bind]
    have beyond : 32 ≤ blockCount := by omega
    refine ⟨beyond, all_readIndirectLogged d _ _ (by omega) ?_,
      fun _ _ => all_ofOption _⟩
    change _ ≤ blockCount * 512
    omega

/-! ### Gaining and losing blocks -/

theorem all_allocDirectLogged (d : Disk) (ino : Inode) {originalBlock count : Nat}
    (direct : originalBlock + count ≤ 32) :
    (allocDirectLogged d ino originalBlock count).All FileAccess.InBounds := by
  apply all_fold
  intro state i member
  have below := List.mem_range.mp member
  simp only [bind_eq, pure_eq]
  rw [all_bind, all_setBlockLogged]
  exact ⟨by omega, fun _ _ => all_ofOption _⟩

theorem all_allocIndirectLogged (d : Disk) (indirectBlocks : Memory) {i limit : Nat}
    (few : limit ≤ 128) :
    (allocIndirectLogged d indirectBlocks i limit).All FileAccess.InBounds := by
  apply all_fold
  intro state i member
  have below := List.mem_range'_1.mp member
  simp only [bind_eq, pure_eq]
  rw [all_bind, all_setIndirectEntryLogged]
  exact ⟨by omega, fun _ _ => all_ofOption _⟩

theorem all_freeIndirectLogged (d : Disk) (indirectBlocks : Memory) {i limit : Nat}
    (few : limit ≤ 128) :
    (freeIndirectLogged d indirectBlocks i limit).All FileAccess.InBounds := by
  apply all_fold
  intro state i member
  have below := List.mem_range'_1.mp member
  simp only [bind_eq, pure_eq]
  rw [all_bind, all_indirectEntryLogged]
  exact ⟨by omega, fun _ _ => all_ofOption _⟩

/-- The bound `limit - original_block` wraps where the file had an index block. -/
theorem all_growFileLogged_iff (d : Disk) (uninit : Uninit) (ino : Inode)
    {originalBlock blockCount : Nat} (grows : originalBlock < blockCount) (few : blockCount ≤ 160) :
    (growFileLogged d uninit ino originalBlock blockCount).All FileAccess.InBounds ↔
      originalBlock ≤ ndirect := by
  have direct_eq := ndirect_eq
  unfold growFileLogged
  simp only [bind_eq, pure_eq]
  rw [all_tell_bind]
  refine ⟨fun all => ?_, fun direct => ?_⟩
  · have bound : originalBlock ≤ min blockCount ndirect := all.1
    omega
  · have limit : subUint32 (min blockCount ndirect) originalBlock =
        min blockCount ndirect - originalBlock := subUint32_eq (by omega) (by omega)
    have ordered : originalBlock ≤ min blockCount ndirect := by omega
    refine ⟨ordered, ?_⟩
    rw [limit, all_tell_bind]
    have part : min blockCount ndirect - originalBlock ≤ blockCount - originalBlock := by omega
    refine ⟨part, ?_⟩
    rw [all_bind]
    refine ⟨all_allocDirectLogged d ino (by omega), ?_⟩
    rintro ⟨d, ino⟩ -
    dsimp only
    by_cases past : ndirect < blockCount
    · rw [if_pos past, all_tell_bind, if_pos direct]
      refine ⟨Nat.le_of_lt past, ?_⟩
      rw [all_bind, all_setBlockLogged]
      refine ⟨Nat.le_refl 32, fun ino _ => ?_⟩
      rw [all_tell_bind]
      have indirectPart : blockCount - ndirect ≤ blockCount - originalBlock := by omega
      refine ⟨indirectPart, ?_⟩
      rw [all_bind]
      refine ⟨all_allocIndirectLogged _ _ (by omega), fun state _ => ?_⟩
      rw [all_bind]
      exact ⟨all_indexBlockLogged ino, fun _ _ => all_ofOption _⟩
    · rw [if_neg past]
      exact all_ofOption _

/-- The bound `limit - block_num` wraps where the file keeps an index block. -/
theorem all_shrinkFileLogged_iff (d : Disk) (uninit : Uninit) (ino : Inode)
    {originalBlock blockCount : Nat} (shrinks : blockCount ≤ originalBlock)
    (few : originalBlock ≤ 160) :
    (shrinkFileLogged d uninit ino originalBlock blockCount).All FileAccess.InBounds ↔
      blockCount ≤ ndirect := by
  have direct_eq := ndirect_eq
  unfold shrinkFileLogged
  simp only [bind_eq, pure_eq]
  rw [all_tell_bind]
  refine ⟨fun all => ?_, fun direct => ?_⟩
  · have bound : blockCount ≤ min originalBlock ndirect := all.1
    omega
  · have limit : subUint32 (min originalBlock ndirect) blockCount =
        min originalBlock ndirect - blockCount := subUint32_eq (by omega) (by omega)
    have ordered : blockCount ≤ min originalBlock ndirect := by omega
    refine ⟨ordered, ?_⟩
    rw [limit, all_tell_bind]
    have part : min originalBlock ndirect - blockCount ≤ originalBlock - blockCount := by omega
    refine ⟨part, ?_⟩
    by_cases past : ndirect < originalBlock
    · rw [if_pos past, all_bind]
      refine ⟨all_indexBlockLogged ino, fun index _ => ?_⟩
      rw [all_tell_bind]
      refine ⟨Nat.le_of_lt past, ?_⟩
      rw [if_neg (Nat.not_lt.mpr direct), all_bind]
      refine ⟨all_indexBlockLogged ino, fun index _ => ?_⟩
      rw [all_tell_bind]
      have indirectPart : originalBlock - ndirect ≤ originalBlock - blockCount := by omega
      exact ⟨indirectPart,
        all_freeIndirectLogged _ _ (by omega)⟩
    · rw [if_neg past]
      exact all_ofOption _

/-! ### Writing -/

theorem all_writeDirectLogged_iff (d : Disk) (ino : Inode) (buf : Memory) {limit capacity : Nat}
    (direct : limit ≤ 32) :
    (writeDirectLogged d ino buf limit capacity).All FileAccess.InBounds ↔
      ∀ i, i < limit → ino.blockAt i < 32768 → 512 * i + 512 ≤ capacity := by
  refine (all_fold_iff ?_ ?_).trans (forall_congr' fun i => imp_congr_left List.mem_range)
  · intro d i member
    have below := List.mem_range.mp member
    have entry : i < 33 := by omega
    simp only [bind_eq, pure_eq, result_bind, result_blockLogged, result_transfer,
      ino.block_eq entry, Option.bind_some, result_ofOption]
    exact ⟨_, rfl⟩
  · intro d i member
    have below := List.mem_range.mp member
    rw [bind_eq, all_bind, all_blockLogged, result_blockLogged, ino.block_eq (by omega),
      and_iff_right (by omega)]
    simp only [Option.some.injEq, forall_eq', bind_eq, pure_eq, all_bind, all_transfer,
      all_ofOption, implies_true, and_true]

theorem all_writeIndirectLogged_iff (d : Disk) (indirectBlocks buf : Memory)
    {limit count capacity : Nat} (few : count ≤ 128) :
    (writeIndirectLogged d indirectBlocks buf limit count capacity).All FileAccess.InBounds ↔
      ∀ i, i < count → (load32 indirectBlocks (4 * i)).toNat < 32768 →
        512 * (limit + i) + 512 ≤ capacity := by
  have entry : ∀ i, i < count → indirectEntry indirectBlocks i =
      some (load32 indirectBlocks (4 * i)).toNat :=
    fun i below => if_pos (show i < 128 by omega)
  refine (all_fold_iff ?_ ?_).trans (forall_congr' fun i => imp_congr_left List.mem_range)
  · intro d i member
    have below := List.mem_range.mp member
    simp only [bind_eq, pure_eq, result_bind, result_indirectEntryLogged, result_transfer,
      entry i below, Option.bind_some, result_ofOption]
    exact ⟨_, rfl⟩
  · intro d i member
    have below := List.mem_range.mp member
    rw [bind_eq, all_bind, all_indirectEntryLogged, result_indirectEntryLogged, entry i below,
      and_iff_right (by omega)]
    simp only [Option.some.injEq, forall_eq', bind_eq, pure_eq, all_bind, all_transfer,
      all_ofOption, implies_true, and_true]

theorem blocks_fit_iff (moved : Nat → Prop) (size : Nat) :
    (∀ n, n < (size + 511) / 512 → moved n → 512 * n + 512 ≤ size) ↔
      512 ∣ size ∨ ¬ moved ((size + 511) / 512 - 1) := by
  constructor
  · intro fit
    by_contra! both
    have := fit ((size + 511) / 512 - 1) (by omega) both.2
    omega
  · rintro (whole | unmoved) n below move
    · omega
    · have : n ≠ (size + 511) / 512 - 1 := by
        rintro rfl
        exact unmoved move
      omega

/-- The bytes of the last block are all taken, unless its number is off the disk. -/
theorem all_writeDataLogged_iff {d after : Disk} (uninit : Uninit) {ino : Inode} {buf : Memory}
    {size : Nat} (small : size ≤ 81920)
    (written : writeDirect d ino buf (min ((size + 511) / 512) ndirect) = some after)
    (onDisk : ndirect < (size + 511) / 512 → ino.indexBlock < 32768) :
    (writeDataLogged d uninit ino ((size + 511) / 512) buf size).All FileAccess.InBounds ↔
      512 ∣ size ∨ ¬ dataRef after ino ((size + 511) / 512 - 1) < 32768 := by
  have direct_eq := ndirect_eq
  rw [← blocks_fit_iff (fun n => dataRef after ino n < 32768)]
  unfold writeDataLogged
  simp only [bind_eq, pure_eq]
  rw [all_bind, result_writeDirectLogged, written, all_writeDirectLogged_iff d ino buf (by omega)]
  simp only [Option.some.injEq, forall_eq']
  by_cases past : ndirect < (size + 511) / 512
  · have entries : ∀ i, i < (size + 511) / 512 - ndirect →
        (load32 (after.readBlock ino.indexBlock uninit.indirectBlocksAgain 0) (4 * i)).toNat =
          dataRef after ino (32 + i) := by
      intro i below
      have inIndirect : i < 128 := by omega
      have entry := indirectEntry_readBlock (d := after) uninit.indirectBlocksAgain (onDisk past)
        inIndirect
      exact Option.some.inj ((if_pos (show i < nindirect by rw [nindirect_eq]; omega)).symm.trans
        entry)
    rw [if_neg (Nat.not_le.mpr past), all_bind, result_indexBlockLogged]
    simp only [Option.some.injEq, forall_eq', all_indexBlockLogged, true_and]
    rw [all_tell_bind, all_writeIndirectLogged_iff _ _ _ (by omega), Nat.min_eq_right (by omega)]
    constructor
    · rintro ⟨first, -, rest⟩ n below moved
      by_cases low : n < 32
      · rw [dataRef_direct after ino low] at moved
        exact first n (by omega) moved
      · have sum : 32 + (n - 32) = n := by omega
        have fits := rest (n - 32) (by omega)
        rw [entries (n - 32) (by omega), sum] at fits
        have := fits moved
        omega
    · intro fit
      refine ⟨fun n below moved => ?_, Nat.le_of_lt past, fun i below moved => ?_⟩
      · have inDirect : n < 32 := by omega
        rw [← dataRef_direct after ino inDirect] at moved
        exact fit n (by omega) moved
      · rw [entries i below] at moved
        exact fit (32 + i) (by omega) moved
  · rw [if_pos (Nat.not_lt.mp past), and_iff_left (all_ofOption _),
      Nat.min_eq_left (Nat.not_lt.mp past)]
    refine forall_congr' fun n => imp_congr_right fun below => ?_
    rw [dataRef_direct after ino (by omega)]

/-! ### Whole calls -/

theorem growFile_succeeds (d : Disk) (uninit : Uninit) {ino : Inode} {blockCount : Nat}
    (grows : fileBlocks ino < blockCount) (direct : fileBlocks ino ≤ ndirect)
    (few : blockCount ≤ 160) :
    ∃ state, growFile d uninit ino (fileBlocks ino) blockCount = some state := by
  by_cases past : ndirect < blockCount
  · obtain ⟨blocks, entries, ran, -⟩ := growFile_past (d := d) uninit direct past few
    exact ⟨_, ran⟩
  · obtain ⟨blocks, ran, -⟩ := growFile_within (d := d) uninit grows (Nat.not_lt.mp past)
    exact ⟨_, ran⟩

theorem freeIndirect_succeeds (d : Disk) (indirectBlocks : Memory) {limit : Nat}
    (few : limit ≤ 128) : ∃ after, freeIndirect d indirectBlocks 0 limit = some after := by
  obtain ⟨after, ran, -⟩ := @Loop.foldlM_range' _
    (fun d i => do
      let id ← indirectEntry indirectBlocks i
      some (freeBlock d id))
    (fun _ _ => True) 0 (limit - 0) d trivial (fun i d _ below _ => by
      have inside : i < nindirect := by
        rw [nindirect_eq]
        omega
      unfold indirectEntry
      rw [if_pos inside]
      exact ⟨_, rfl, trivial⟩)
  exact ⟨after, ran⟩

theorem shrinkFile_succeeds (d : Disk) (uninit : Uninit) (ino : Inode)
    {originalBlock blockCount : Nat} (direct : blockCount ≤ ndirect) (few : originalBlock ≤ 160) :
    ∃ after, shrinkFile d uninit ino originalBlock blockCount = some after := by
  have direct_eq := ndirect_eq
  unfold shrinkFile
  dsimp only
  split
  · rw [if_neg (Nat.not_lt.mpr direct)]
    exact freeIndirect_succeeds _ _ (by omega)
  · exact ⟨_, rfl⟩

variable {d : Disk} {inum : Nat} {ino : Inode} {size : Nat}

theorem all_grown_iff (uninit : Uninit) (buf : Memory) (inTable : inum < 1024)
    (direct : fileBlocks ino ≤ ndirect) (grows : fileBlocks ino < (size + 511) / 512)
    (small : size ≤ 81920) {middle : Disk} {grown : Inode}
    (ran : growFile d uninit ino (fileBlocks ino) ((size + 511) / 512) = some (middle, grown)) :
    (writeDataLogged (putInode middle inum { grown with size := UInt32.ofNat size }) uninit
      { grown with size := UInt32.ofNat size } ((size + 511) / 512) buf size).All
        FileAccess.InBounds ↔
      512 ∣ size ∨ TailIgnored d inum ino buf size := by
  have direct_eq := ndirect_eq
  have direct32 : min ((size + 511) / 512) ndirect ≤ 32 := by omega
  obtain ⟨after, written⟩ := writeDirect_succeeds
    (putInode middle inum { grown with size := UInt32.ofNat size })
    { grown with size := UInt32.ofNat size } buf direct32
  by_cases past : ndirect < (size + 511) / 512
  · have onDisk : grown.indexBlock < 32768 := by
      obtain ⟨blocks, entries, again, indexAddress, -, -⟩ :=
        growFile_past (d := d) uninit direct past (by omega)
      cases again.symm.trans ran
      rw [indexAddress]
      exact allocBlock_lt _
    rw [all_writeDataLogged_iff uninit small written (fun _ => onDisk)]
    rw [Nat.min_eq_right (Nat.le_of_lt past)] at written
    exact or_congr_right (grown_tail_iff uninit inTable direct past small ran written)
  · obtain ⟨blocks, again, addresses⟩ := growFile_within (d := d) uninit grows (by omega)
    cases again.symm.trans ran
    rw [all_writeDataLogged_iff uninit small written (fun impossible => absurd impossible past)]
    unfold TailIgnored
    simp only [ceil_eq]
    rw [if_neg (Nat.not_le.mpr grows)]
    refine or_congr_right (iff_of_false ?_ (fun ignored => past ignored.1))
    rw [dataRef_direct _ _ (by omega)]
    change ¬¬ ({ ino with blocks := blocks } : Inode).blockAt _ < 32768
    rw [addresses, if_pos (by omega)]
    exact not_not.mpr (allocBlock_lt _)

theorem all_kept_iff (middle : Disk) (uninit : Uninit) (buf : Memory)
    (direct : (size + 511) / 512 ≤ ndirect) (keeps : (size + 511) / 512 ≤ fileBlocks ino)
    (small : size ≤ 81920) :
    (writeDataLogged (putInode middle inum { ino with size := UInt32.ofNat size }) uninit
      { ino with size := UInt32.ofNat size } ((size + 511) / 512) buf size).All
        FileAccess.InBounds ↔
      512 ∣ size ∨ TailIgnored d inum ino buf size := by
  have direct_eq := ndirect_eq
  have direct32 : min ((size + 511) / 512) ndirect ≤ 32 := by omega
  obtain ⟨after, written⟩ := writeDirect_succeeds
    (putInode middle inum { ino with size := UInt32.ofNat size })
    { ino with size := UInt32.ofNat size } buf direct32
  rw [all_writeDataLogged_iff uninit small written
    (fun impossible => absurd direct (Nat.not_le.mpr impossible))]
  unfold TailIgnored
  simp only [ceil_eq]
  rw [if_pos keeps, blockNum_eq, dataRef_inode _ _ _ (by omega), Nat.not_lt]

theorem all_writeFileLogged_iff (uninit : Uninit) (buf : Memory)
    (found : getInode d inum = some ino) (live : ino.size.toNat ≤ 81920) (small : size ≤ 81920) :
    (writeFileLogged d uninit inum buf size).All FileAccess.InBounds ↔
      (fileBlocks ino ≤ ndirect ∨ ceil size blockSize ≤ ndirect) ∧
        (blockSize ∣ size ∨ TailIgnored d inum ino buf size) := by
  have direct_eq := ndirect_eq
  have few := fileBlocks_eq ino
  have inTable := getInode_lt found
  have stored : toUint32 (size : Int) = size := by
    unfold toUint32
    omega
  unfold writeFileLogged
  rw [found]
  have int : size < 2 ^ 31 := by omega
  simp only [bind_eq, pure_eq, toUint32_ceilInt int, stored,
    Int.toNat_natCast]
  have allowed : ¬maxfile < (size + 511) / 512 := by rw [maxfile_eq]; omega
  rw [if_neg allowed, ceil_eq size]
  change _ ↔ _ ∧ (512 ∣ size ∨ _)
  change (if fileBlocks ino < (size + 511) / 512 then _ else _ : Logged FileAccess Disk).All _ ↔ _
  by_cases grows : fileBlocks ino < (size + 511) / 512
  · rw [if_pos grows, all_bind]
    change (growFileLogged d uninit ino (fileBlocks ino) _).All _ ∧ _ ↔ _
    rw [all_growFileLogged_iff d uninit ino grows (by omega)]
    constructor
    · rintro ⟨direct, moved⟩
      obtain ⟨state, ran⟩ := growFile_succeeds d uninit grows direct (show _ ≤ 160 by omega)
      exact ⟨.inl direct, (all_grown_iff uninit buf inTable direct grows small ran).mp
        (moved state ((result_growFileLogged ..).trans ran))⟩
    · rintro ⟨either, whole⟩
      have direct : fileBlocks ino ≤ ndirect := by omega
      refine ⟨direct, fun state ran => ?_⟩
      exact (all_grown_iff uninit buf inTable direct grows small
        ((result_growFileLogged ..).symm.trans ran)).mpr whole
  · rw [if_neg grows, all_bind]
    change (shrinkFileLogged d uninit ino (fileBlocks ino) _).All _ ∧ _ ↔ _
    rw [all_shrinkFileLogged_iff d uninit ino (Nat.not_lt.mp grows) (by omega)]
    constructor
    · rintro ⟨direct, moved⟩
      obtain ⟨middle, ran⟩ := shrinkFile_succeeds d uninit ino direct
        (show fileBlocks ino ≤ 160 by omega)
      exact ⟨.inr direct, (all_kept_iff middle uninit buf direct (Nat.not_lt.mp grows) small).mp
        (moved middle ((result_shrinkFileLogged ..).trans ran))⟩
    · rintro ⟨either, whole⟩
      have direct : (size + 511) / 512 ≤ ndirect := by omega
      exact ⟨direct, fun middle _ =>
        (all_kept_iff middle uninit buf direct (Nat.not_lt.mp grows) small).mpr whole⟩

/-! ### Both functions -/

/-- Without the accesses these are `readFile` and `writeFile`. -/
theorem result_readFileLogged (d : Disk) (uninit : Uninit) (inum : Nat) :
    (readFileLogged d uninit inum).result = readFile d uninit inum := by
  unfold readFileLogged readFile
  cases getInode d inum with
  | none => rfl
  | some ino =>
      simp only [bind_eq, pure_eq, result_bind, result_readDirectLogged, apply_ite Logged.result,
        result_ofOption, result_indexBlockLogged, result_tell, result_readIndirectLogged,
        Option.bind_some, Option.bind_eq_bind]

theorem result_writeFileLogged (d : Disk) (uninit : Uninit) (inum : Nat) (buf : Memory)
    (size : Int) :
    (writeFileLogged d uninit inum buf size).result = writeFile d uninit inum buf size := by
  unfold writeFileLogged writeFile
  cases getInode d inum with
  | none => rfl
  | some ino =>
      simp only [bind_eq, pure_eq, result_bind, result_growFileLogged, result_shrinkFileLogged,
        result_writeDataLogged, result_ofOption, apply_ite Logged.result, Option.bind_eq_bind,
        Option.map_eq_bind, Option.bind_assoc, Option.bind_some, Function.comp_apply]

/-- In a file that is in order, with blocks to allocate, the last block has its place. -/
theorem not_tailIgnored (found : getInode d inum = some ino) (owned : Owned d ino) {buf : Memory}
    (fits : Fits d inum ino ((size + 511) / 512)) (any : 0 < size) :
    ¬ TailIgnored d inum ino buf size := by
  have direct_eq := ndirect_eq
  unfold TailIgnored
  simp only [ceil_eq]
  rw [blockNum_eq]
  by_cases grows : fileBlocks ino < (size + 511) / 512
  · rw [if_neg (Nat.not_le.mpr grows)]
    rintro ⟨past, ignored⟩
    have direct : fileBlocks ino ≤ 32 := by
      rcases fits.oneSide with old | new <;> omega
    have succeed := fits.succeed grows
    have calls : allocCount (fileBlocks ino) ((size + 511) / 512) =
        (size + 511) / 512 + 1 - fileBlocks ino := if_neg (by omega)
    rw [calls] at succeed
    have index : grownAddress d ino ndirect = nthAlloc d (32 - fileBlocks ino) := if_pos direct
    have alone : overIndex d ino = none := by
      apply List.find?_eq_none.mpr
      intro n member same
      rw [List.mem_reverse, List.mem_range] at member
      rw [decide_eq_true_eq, index] at same
      unfold grownAddress at same
      by_cases fresh : fileBlocks ino ≤ n
      · rw [if_pos fresh] at same
        have := nthAlloc_injective succeed (by omega) (by omega) same
        omega
      · rw [if_neg fresh, ← dataRef_direct d ino (by omega)] at same
        have marks := owned.marks _ (dataRef_mem (Nat.not_le.mp fresh))
        rw [same, marked_nthAlloc succeed (by omega)] at marks
        cases marks
    rw [alone] at ignored
    obtain ⟨record, -⟩ := ignored
    rw [index, iblock_eq] at record
    obtain ⟨last, -⟩ := record_of_index (getInode_lt found) direct record
    have kept := fits.lastInode last
    omega
  · rw [if_pos (Nat.not_lt.mp grows), Nat.not_le]
    have kept : (size + 511) / 512 - 1 < fileBlocks ino := by omega
    have direct : (size + 511) / 512 ≤ 32 := by
      rcases fits.oneSide with old | new <;> omega
    rw [← dataRef_direct d ino (by omega)]
    exact (owned.inData _ (dataRef_mem kept)).2

/-- `read_file` stays in bounds, and `write_file` does where the file does not have
an index block both before and after, and there is no partial last block to write: a
file that is in order never ignores it (`not_tailIgnored`). -/
theorem file_in_bounds_iff (uninit : Uninit) (buf : Memory) (found : getInode d inum = some ino)
    (live : ino.size.toNat ≤ maxfile * blockSize) (small : size ≤ maxfile * blockSize) :
    ((readFileLogged d uninit inum).All FileAccess.InBounds ∧
        (writeFileLogged d uninit inum buf size).All FileAccess.InBounds) ↔
      (fileBlocks ino ≤ ndirect ∨ ceil size blockSize ≤ ndirect) ∧
        (blockSize ∣ size ∨ TailIgnored d inum ino buf size) := by
  rw [and_iff_right (all_readFileLogged uninit found live)]
  exact all_writeFileLogged_iff uninit buf found live small

private def sample (size : UInt32) : Inode :=
  { type := 1, size := size, atime := 0, mtime := 0, ctime := 0
    blocks := Vector.replicate (ndirect + 1) 400 }

private theorem getInode_sample (size : UInt32) :
    getInode (putInode Disk.fresh 1 (sample size)) 1 = some (sample size) := by
  rw [getInode_putInode_self _ _ (by decide)]
  rfl

theorem file_in_bounds_whole :
    (readFileLogged (putInode Disk.fresh 1 (sample 1)) .zero 1).All FileAccess.InBounds ∧
      (writeFileLogged (putInode Disk.fresh 1 (sample 1)) .zero 1 (fun _ => 0) (1024 : Nat)).All
        FileAccess.InBounds :=
  (file_in_bounds_iff .zero _ (getInode_sample 1) (by decide) (by decide)).mpr
    ⟨.inl (by decide), .inl (by decide)⟩

/-- One byte over a file of one byte, and 33 blocks over a file of 33 blocks. -/
theorem file_out_of_bounds :
    (getInode (putInode Disk.fresh 1 (sample 1)) 1 = some (sample 1) ∧
      ¬ (writeFileLogged (putInode Disk.fresh 1 (sample 1)) .zero 1 (fun _ => 0) (1 : Nat)).All
        FileAccess.InBounds) ∧
      getInode (putInode Disk.fresh 1 (sample 16896)) 1 = some (sample 16896) ∧
      ¬ (writeFileLogged (putInode Disk.fresh 1 (sample 16896)) .zero 1 (fun _ => 0)
        (16896 : Nat)).All FileAccess.InBounds := by
  refine ⟨⟨getInode_sample 1, ?_⟩, getInode_sample 16896, ?_⟩
  · rw [all_writeFileLogged_iff .zero _ (getInode_sample 1) (by decide) (by decide)]
    rintro ⟨-, whole | ignored⟩
    · revert whole
      decide
    · have keeps : ceil 1 blockSize ≤ fileBlocks (sample 1) := by decide
      unfold TailIgnored at ignored
      dsimp only at ignored
      rw [if_pos keeps] at ignored
      revert ignored
      decide
  · rw [all_writeFileLogged_iff .zero _ (getInode_sample 16896) (by decide) (by decide)]
    rintro ⟨either, -⟩
    revert either
    decide

end CseLab.FileSystem
