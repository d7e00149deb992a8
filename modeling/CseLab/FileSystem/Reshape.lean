import CseLab.FileSystem.FileContents

/-! The alloc and free branches of `write_file`. `Reshaped` says what either
branch hands to the data transfer: the inode of the new size has its blocks in
the data area, without repetition, and each block is either one the file had
or one that was free. -/

namespace CseLab.FileSystem

open ByteMemory

/-! ### Allocation loops -/

theorem Inode.setBlock_spec (ino : Inode) {i id : Nat} (inside : i < 33) (small : id < 32768) :
    ∃ blocks, ino.setBlock i id = some { ino with blocks := blocks } ∧
      ∀ k, ({ ino with blocks := blocks } : Inode).blockAt k =
        if k = i then id else ino.blockAt k := by
  have bound : i < ndirect + 1 := inside
  refine ⟨ino.blocks.set i (UInt32.ofNat id) bound, dif_pos bound, ?_⟩
  intro k
  unfold Inode.blockAt
  dsimp only
  rw [Vector.getElem?_set]
  by_cases same : k = i
  · rw [if_pos same.symm, if_pos same, Option.getD_some, UInt32.toNat_ofNat']
    omega
  · rw [if_neg (fun equal => same equal.symm), if_neg same]

theorem allocDirect_spec (d : Disk) (ino : Inode) (originalBlock count : Nat)
    (few : originalBlock + count ≤ 32) :
    ∃ blocks, allocDirect d ino originalBlock count =
        some (afterAllocs d count, { ino with blocks := blocks }) ∧
      ∀ k, ({ ino with blocks := blocks } : Inode).blockAt k =
        if originalBlock ≤ k ∧ k < originalBlock + count then nthAlloc d (k - originalBlock)
        else ino.blockAt k := by
  let invariant : Nat → Disk × Inode → Prop := fun counter state =>
    state.1 = afterAllocs d counter ∧ state.2 = { ino with blocks := state.2.blocks } ∧
      ∀ k, state.2.blockAt k =
        if originalBlock ≤ k ∧ k < originalBlock + counter then nthAlloc d (k - originalBlock)
        else ino.blockAt k
  have loop : ∃ final, allocDirect d ino originalBlock count = some final ∧
      invariant count final :=
    Loop.foldlM_range invariant ⟨rfl, rfl, fun k => by rw [if_neg (by omega)]⟩ (by
      rintro counter ⟨after, current⟩ below ⟨same, shape, addresses⟩
      simp only at same shape addresses
      subst same
      have index : (originalBlock + counter) % 2 ^ 32 = originalBlock + counter :=
        Nat.mod_eq_of_lt (by omega)
      obtain ⟨blocks, set, updated⟩ := current.setBlock_spec (i := originalBlock + counter)
        (by omega) (allocBlock_lt (afterAllocs d counter))
      refine ⟨(afterAllocs d (counter + 1), { current with blocks := blocks }), ?_, rfl, ?_, ?_⟩
      · simp only [index, set, Option.bind_eq_bind, Option.bind_some]
        rfl
      · rw [shape]
      · intro k
        simp only
        rw [updated, addresses]
        by_cases here : k = originalBlock + counter
        · rw [if_pos here, if_pos (by omega), here, Nat.add_sub_cancel_left]
          rfl
        · rw [if_neg here]
          congr 1
          apply propext
          omega)
  obtain ⟨⟨after, final⟩, ran, same, shape, addresses⟩ := loop
  simp only at same shape addresses
  subst same
  rw [shape] at ran addresses
  exact ⟨final.blocks, ran, addresses⟩

theorem allocIndirect_spec (d : Disk) (buf : Memory) (limit : Nat) (few : limit ≤ 128) :
    ∃ entries, allocIndirect d buf 0 limit = some (afterAllocs d limit, entries) ∧
      ∀ k, k < limit → (load32 entries (4 * k)).toNat = nthAlloc d k := by
  let invariant : Nat → Disk × Memory → Prop := fun counter state =>
    state.1 = afterAllocs d counter ∧
      ∀ k, k < counter → (load32 state.2 (4 * k)).toNat = nthAlloc d k
  have loop : ∃ final, allocIndirect d buf 0 limit = some final ∧ invariant (0 + limit) final :=
    Loop.foldlM_range' invariant ⟨rfl, fun k below => absurd below (Nat.not_lt_zero k)⟩ (by
      rintro counter ⟨after, entries⟩ - below ⟨same, stored⟩
      simp only at same stored
      subst same
      have small := allocBlock_lt (afterAllocs d counter)
      refine ⟨(afterAllocs d (counter + 1), store32 entries (4 * counter)
        (UInt32.ofNat (nthAlloc d counter))), ?_, rfl, ?_⟩
      · have set : ∀ id, setIndirectEntry entries counter id =
            some (store32 entries (4 * counter) (UInt32.ofNat id)) :=
          fun _id => if_pos (show counter < 128 by omega)
        simp only [set]
        rfl
      · intro k inside
        simp only
        by_cases here : k = counter
        · rw [here, load32_store32, UInt32.toNat_ofNat']
          exact Nat.mod_eq_of_lt (by
            unfold nthAlloc
            omega)
        · rw [load32_store32_disjoint (by omega)]
          exact stored k (by omega))
  obtain ⟨⟨after, entries⟩, ran, same, stored⟩ := loop
  simp only [Nat.zero_add] at same stored
  subst same
  exact ⟨entries, ran, stored⟩

/-! ### Placement -/

/-- The blocks of a file lie in the data area and no two uses share a block. -/
structure Placed (d : Disk) (ino : Inode) : Prop where
  size_le : ino.size.toNat ≤ 81920
  inData : ∀ b ∈ references d ino, 352 ≤ b ∧ b < 32768
  injective : ∀ m n, m < fileBlocks ino → n < fileBlocks ino →
    dataRef d ino m = dataRef d ino n → m = n
  index_ne : 32 < fileBlocks ino → ∀ n, n < fileBlocks ino → dataRef d ino n ≠ ino.indexBlock

theorem Placed.readable {d : Disk} {ino : Inode} (placed : Placed d ino) : Readable d ino :=
  ⟨placed.size_le, fun b member => (placed.inData b member).2⟩

/-- A placed file whose blocks are all marked in the bitmap. -/
structure Owned (d : Disk) (ino : Inode) : Prop extends Placed d ino where
  marks : ∀ b ∈ references d ino, marked d b = true

def keptData (d : Disk) (ino : Inode) (blockCount : Nat) : List Nat :=
  (List.range (min (fileBlocks ino) blockCount)).map (dataRef d ino)

theorem mem_keptData {d : Disk} {ino : Inode} {blockCount b : Nat} :
    b ∈ keptData d ino blockCount ↔
      ∃ n, n < fileBlocks ino ∧ n < blockCount ∧ dataRef d ino n = b := by
  unfold keptData
  simp only [List.mem_map, List.mem_range, Nat.lt_min, and_assoc]

theorem keptData_subset {d : Disk} {ino : Inode} {blockCount b : Nat}
    (member : b ∈ keptData d ino blockCount) : b ∈ references d ino := by
  obtain ⟨n, below, -, rfl⟩ := mem_keptData.mp member
  exact dataRef_mem below

structure Reshaped (d : Disk) (ino : Inode) (after : Disk) (next : Inode) : Prop
    extends Placed after next where
  origin : ∀ b ∈ references after next,
    b ∈ keptData d ino (fileBlocks next) ∨ (marked d b = false ∧ marked after b = true)
  taken : fileBlocks ino < fileBlocks next → (allocBlock d).1 ∈ references after next
  unchanged : ∀ b, 10 ≤ b → b ∉ references after next → after.blocks b = d.blocks b

theorem subUint32_eq {a b : Nat} (le : b ≤ a) (small : a < 2 ^ 32) : subUint32 a b = a - b := by
  unfold subUint32 toUint32
  omega

/-! ### Growing -/

/-- The number of `alloc_block` calls that take a file of at most `NDIRECT`
blocks to `blockCount` blocks: the index block is one more. -/
def allocCount (originalBlock blockCount : Nat) : Nat :=
  if blockCount ≤ 32 then blockCount - originalBlock else blockCount + 1 - originalBlock

/-- The call that supplies data block `n`; call `NDIRECT - originalBlock` supplies the index. -/
def slot (originalBlock n : Nat) : Nat :=
  if n < 32 then n - originalBlock else n + 1 - originalBlock

theorem slot_lt {originalBlock blockCount n : Nat}
    (lower : originalBlock ≤ n) (upper : n < blockCount) :
    slot originalBlock n < allocCount originalBlock blockCount := by
  unfold slot allocCount
  split <;> split <;> omega

private structure Grown (d : Disk) (ino : Inode) (after : Disk) (next : Inode) : Prop where
  direct : fileBlocks ino ≤ 32
  size_le : next.size.toNat ≤ 81920
  succeed : AllocsSucceed d (allocCount (fileBlocks ino) (fileBlocks next))
  data : ∀ n, n < fileBlocks next → dataRef after next n =
    if n < fileBlocks ino then dataRef d ino n else nthAlloc d (slot (fileBlocks ino) n)
  index : 32 < fileBlocks next → next.indexBlock = nthAlloc d (32 - fileBlocks ino)

namespace Grown

variable {d after : Disk} {ino next : Inode}

private theorem indexCall (grown : Grown d ino after next) (indirect : 32 < fileBlocks next) :
    32 - fileBlocks ino < allocCount (fileBlocks ino) (fileBlocks next) := by
  have direct := grown.direct
  unfold allocCount
  split <;> omega

private theorem references_origin (grown : Grown d ino after next) {b : Nat}
    (member : b ∈ references after next) :
    b ∈ keptData d ino (fileBlocks next) ∨
      ∃ call, call < allocCount (fileBlocks ino) (fileBlocks next) ∧ nthAlloc d call = b := by
  rcases mem_references.mp member with ⟨indirect, rfl⟩ | ⟨n, below, rfl⟩
  · exact Or.inr ⟨_, grown.indexCall indirect, (grown.index indirect).symm⟩
  · rw [grown.data n below]
    split
    · rename_i old
      exact Or.inl (mem_keptData.mpr ⟨n, old, below, rfl⟩)
    · rename_i fresh
      exact Or.inr ⟨_, slot_lt (by omega) below, rfl⟩

private theorem old_ne_new (grown : Grown d ino after next) (owned : Owned d ino) {n call : Nat}
    (old : n < fileBlocks ino) (below : call < allocCount (fileBlocks ino) (fileBlocks next)) :
    dataRef d ino n ≠ nthAlloc d call := by
  intro same
  have wasMarked := owned.marks _ (dataRef_mem old)
  rw [same, marked_nthAlloc grown.succeed below] at wasMarked
  cases wasMarked

private theorem injective (grown : Grown d ino after next) (owned : Owned d ino) {m n : Nat}
    (belowM : m < fileBlocks next) (belowN : n < fileBlocks next)
    (same : dataRef after next m = dataRef after next n) : m = n := by
  rw [grown.data m belowM, grown.data n belowN] at same
  by_cases oldM : m < fileBlocks ino
  · by_cases oldN : n < fileBlocks ino
    · rw [if_pos oldM, if_pos oldN] at same
      exact owned.injective m n oldM oldN same
    · rw [if_pos oldM, if_neg oldN] at same
      exact absurd same (grown.old_ne_new owned oldM (slot_lt (by omega) belowN))
  · by_cases oldN : n < fileBlocks ino
    · rw [if_neg oldM, if_pos oldN] at same
      exact absurd same.symm (grown.old_ne_new owned oldN (slot_lt (by omega) belowM))
    · rw [if_neg oldM, if_neg oldN] at same
      have calls := nthAlloc_injective grown.succeed (slot_lt (by omega) belowM)
        (slot_lt (by omega) belowN) same
      have direct := grown.direct
      unfold slot at calls
      split at calls <;> split at calls <;> omega

private theorem index_ne (grown : Grown d ino after next) (owned : Owned d ino)
    (indirect : 32 < fileBlocks next) {n : Nat} (below : n < fileBlocks next) :
    dataRef after next n ≠ next.indexBlock := by
  intro same
  rw [grown.data n below, grown.index indirect] at same
  split at same
  · rename_i old
    exact grown.old_ne_new owned old (grown.indexCall indirect) same
  · rename_i fresh
    have calls := nthAlloc_injective grown.succeed (slot_lt (by omega) below)
      (grown.indexCall indirect) same
    have direct := grown.direct
    unfold slot at calls
    split at calls <;> omega

private theorem placed (grown : Grown d ino after next) (owned : Owned d ino) :
    Placed after next where
  size_le := grown.size_le
  inData := by
    intro b member
    rcases grown.references_origin member with old | ⟨call, below, rfl⟩
    · exact owned.inData b (keptData_subset old)
    · obtain ⟨lower, upper, -, -⟩ := nthAlloc_spec grown.succeed below
      exact ⟨lower, upper⟩
  injective := fun _m _n belowM belowN same => grown.injective owned belowM belowN same
  index_ne := fun indirect _n below => grown.index_ne owned indirect below

private theorem reshaped (grown : Grown d ino after next) (owned : Owned d ino)
    (marks : ∀ call, call < allocCount (fileBlocks ino) (fileBlocks next) →
      marked after (nthAlloc d call) = true)
    (unchanged : ∀ b, 10 ≤ b → b ∉ references after next → after.blocks b = d.blocks b) :
    Reshaped d ino after next where
  toPlaced := grown.placed owned
  origin := by
    intro b member
    rcases grown.references_origin member with old | ⟨call, below, rfl⟩
    · exact Or.inl old
    · exact Or.inr ⟨marked_nthAlloc grown.succeed below, marks call below⟩
  taken := by
    intro grows
    change nthAlloc d 0 ∈ references after next
    by_cases full : fileBlocks ino = 32
    · have index := grown.index (by omega)
      rw [full, Nat.sub_self] at index
      rw [← index]
      exact indexBlock_mem (by omega)
    · have direct := grown.direct
      have first := grown.data (fileBlocks ino) grows
      rw [if_neg (Nat.lt_irrefl _)] at first
      unfold slot at first
      rw [if_pos (by omega), Nat.sub_self] at first
      rw [← first]
      exact dataRef_mem grows
  unchanged := unchanged

end Grown

theorem dataRef_written {d : Disk} {ino : Inode} {size : UInt32} {index n : Nat} {entries : Memory}
    (here : ino.indexBlock = index) (onDisk : index < 32768) (past : 32 ≤ n ∧ n < 160) :
    dataRef (d.writeBlock index entries) { ino with size := size } n =
      (load32 entries (4 * (n - 32))).toNat := by
  rw [dataRef_indirect _ _ past.1]
  congr 1
  apply load32_congr
  intro address lower upper
  change (d.writeBlock index entries).blocks ino.indexBlock address = _
  rw [here, Disk.writeBlock_apply, if_pos ⟨onDisk, rfl, by omega⟩]

theorem growFile_within {d : Disk} {ino : Inode} (uninit : Uninit) {blockCount : Nat}
    (grows : fileBlocks ino < blockCount) (small : blockCount ≤ 32) :
    ∃ blocks,
      growFile d uninit ino (fileBlocks ino) blockCount =
        some (afterAllocs d (blockCount - fileBlocks ino), { ino with blocks := blocks }) ∧
      ∀ k, ({ ino with blocks := blocks } : Inode).blockAt k =
        if fileBlocks ino ≤ k ∧ k < blockCount then nthAlloc d (k - fileBlocks ino)
        else ino.blockAt k := by
  have limit : subUint32 (min blockCount ndirect) (fileBlocks ino) =
      blockCount - fileBlocks ino := by
    rw [ndirect_eq, Nat.min_eq_left small, subUint32_eq (by omega) (by omega)]
  obtain ⟨blocks, ran, addresses⟩ := allocDirect_spec d ino
    (fileBlocks ino) (blockCount - fileBlocks ino) (by omega)
  rw [Nat.add_sub_cancel' (Nat.le_of_lt grows)] at addresses
  refine ⟨blocks, ?_, addresses⟩
  unfold growFile
  simp only [limit, ran, Option.bind_eq_bind, Option.bind_some]
  have noIndexBlock : ¬32 < blockCount := by omega
  exact if_neg noIndexBlock

theorem growFile_past {d : Disk} {ino : Inode} (uninit : Uninit) {blockCount : Nat}
    (direct : fileBlocks ino ≤ 32) (large : 32 < blockCount) (few : blockCount ≤ 160) :
    ∃ blocks entries,
      growFile d uninit ino (fileBlocks ino) blockCount =
        some ((afterAllocs d (blockCount + 1 - fileBlocks ino)).writeBlock
          (nthAlloc d (32 - fileBlocks ino)) entries, { ino with blocks := blocks }) ∧
      ({ ino with blocks := blocks } : Inode).indexBlock = nthAlloc d (32 - fileBlocks ino) ∧
      (∀ k, k < 32 → ({ ino with blocks := blocks } : Inode).blockAt k =
        if fileBlocks ino ≤ k then nthAlloc d (k - fileBlocks ino) else ino.blockAt k) ∧
      ∀ k, k < blockCount - 32 →
        (load32 entries (4 * k)).toNat = nthAlloc d (32 - fileBlocks ino + 1 + k) := by
  have limit : subUint32 (min blockCount ndirect) (fileBlocks ino) = 32 - fileBlocks ino := by
    rw [ndirect_eq, Nat.min_eq_right (by omega), subUint32_eq (by omega) (by omega)]
  obtain ⟨directBlocks, ranDirect, directAddresses⟩ := allocDirect_spec d ino
    (fileBlocks ino) (32 - fileBlocks ino) (by omega)
  obtain ⟨blocks, ranIndex, addresses⟩ := Inode.setBlock_spec
    { ino with blocks := directBlocks } (i := 32) (by omega)
    (allocBlock_lt (afterAllocs d (32 - fileBlocks ino)))
  obtain ⟨entries, ranEntries, stored⟩ := allocIndirect_spec
    (afterAllocs d (32 - fileBlocks ino + 1)) uninit.indirectBlocks
    (blockCount - 32) (by omega)
  have indexAddress : ({ ino with blocks := blocks } : Inode).indexBlock =
      nthAlloc d (32 - fileBlocks ino) := by
    rw [Inode.indexBlock_eq, addresses, if_pos rfl]
    rfl
  have total : 32 - fileBlocks ino + 1 + (blockCount - 32) = blockCount + 1 - fileBlocks ino := by
    omega
  rw [afterAllocs_add, total] at ranEntries
  refine ⟨blocks, entries, ?_, indexAddress, ?_, ?_⟩
  · rw [← indexAddress]
    unfold growFile
    simp only [limit, ranDirect, Option.bind_eq_bind, Option.bind_some]
    have usesIndex : ndirect < blockCount := large
    have noIndex : fileBlocks ino ≤ ndirect := direct
    rw [if_pos usesIndex, if_pos noIndex, allocBlock_afterAllocs]
    change ((({ ino with blocks := directBlocks } : Inode).setBlock 32
        (allocBlock (afterAllocs d (32 - fileBlocks ino))).1).bind fun current =>
      (allocIndirect (afterAllocs d (32 - fileBlocks ino + 1)) uninit.indirectBlocks 0
        (blockCount - 32)).bind fun state =>
          some (state.1.writeBlock current.indexBlock state.2, current)) = _
    rw [ranIndex, Option.bind_some, ranEntries]
    rfl
  · intro k below
    rw [addresses, if_neg (by omega), directAddresses]
    congr 1
    apply propext
    omega
  · intro k below
    rw [stored k below, nthAlloc_afterAllocs]

private theorem growFile_direct {d : Disk} {ino : Inode} (uninit : Uninit) {blockCount : Nat}
    {size : UInt32} (owned : Owned d ino) (grows : fileBlocks ino < blockCount)
    (small : blockCount ≤ 32) (counted : (size.toNat + 511) / 512 = blockCount)
    (succeed : AllocsSucceed d (allocCount (fileBlocks ino) blockCount)) :
    ∃ after blocks,
      growFile d uninit ino (fileBlocks ino) blockCount =
        some (after, { ino with blocks := blocks }) ∧
      Reshaped d ino after { ino with blocks := blocks, size := size } ∧
      (∀ b, b < 32768 → marked d b = true → marked after b = true) ∧
      marked after firstData = true := by
  have calls : allocCount (fileBlocks ino) blockCount = blockCount - fileBlocks ino :=
    if_pos small
  obtain ⟨blocks, ran, addresses⟩ := growFile_within (d := d) uninit grows small
  have count : fileBlocks { ino with blocks := blocks, size := size } = blockCount := by
    rw [fileBlocks_eq]
    exact counted
  have grown : Grown d ino (afterAllocs d (blockCount - fileBlocks ino))
      { ino with blocks := blocks, size := size } := by
    refine ⟨by omega, ?_, ?_, ?_, ?_⟩
    · change size.toNat ≤ 81920
      omega
    · rw [count]
      exact succeed
    · intro n below
      rw [count] at below
      rw [dataRef_direct _ { ino with blocks := blocks, size := size } (by omega)]
      change ({ ino with blocks := blocks } : Inode).blockAt n = _
      rw [addresses]
      by_cases old : n < fileBlocks ino
      · rw [if_pos old, if_neg (by omega)]
        have inDirect : n < 32 := by omega
        exact (if_pos inDirect).symm
      · rw [if_neg old, if_pos (by omega)]
        unfold slot
        rw [if_pos (by omega)]
    · intro indirect
      omega
  refine ⟨_, blocks, ran, grown.reshaped owned ?_ ?_, ?_, ?_⟩
  · intro call below
    rw [count, calls] at below
    rw [calls] at succeed
    exact marked_afterAllocs_nthAlloc succeed below
  · intro b outside _unused
    exact afterAllocs_other d _ outside
  · intro b _small was
    exact marked_afterAllocs_mono (Nat.zero_le _) was
  · exact marked_firstData_afterAllocs d (by omega)

private theorem growFile_indirect {d : Disk} {ino : Inode} (uninit : Uninit) {blockCount : Nat}
    {size : UInt32} (owned : Owned d ino) (direct : fileBlocks ino ≤ 32)
    (large : 32 < blockCount) (few : blockCount ≤ 160)
    (counted : (size.toNat + 511) / 512 = blockCount)
    (succeed : AllocsSucceed d (allocCount (fileBlocks ino) blockCount)) :
    ∃ after blocks,
      growFile d uninit ino (fileBlocks ino) blockCount =
        some (after, { ino with blocks := blocks }) ∧
      Reshaped d ino after { ino with blocks := blocks, size := size } ∧
      (∀ b, b < 32768 → marked d b = true → marked after b = true) ∧
      marked after firstData = true := by
  have calls : allocCount (fileBlocks ino) blockCount = blockCount + 1 - fileBlocks ino :=
    if_neg (by omega)
  obtain ⟨blocks, entries, ran, indexAddress, addresses, stored⟩ :=
    growFile_past (d := d) uninit direct large few
  obtain ⟨indexLower, indexUpper, -, -⟩ := nthAlloc_spec succeed
    (show 32 - fileBlocks ino < _ by rw [calls]; omega)
  have count : fileBlocks { ino with blocks := blocks, size := size } = blockCount := by
    rw [fileBlocks_eq]
    exact counted
  have grown : Grown d ino ((afterAllocs d (blockCount + 1 - fileBlocks ino)).writeBlock
      (nthAlloc d (32 - fileBlocks ino)) entries) { ino with blocks := blocks, size := size } := by
    refine ⟨direct, ?_, ?_, ?_, fun _indirect => indexAddress⟩
    · change size.toNat ≤ 81920
      omega
    · rw [count]
      exact succeed
    · intro n below
      rw [count] at below
      by_cases inode : n < 32
      · rw [dataRef_direct _ { ino with blocks := blocks, size := size } inode]
        change ({ ino with blocks := blocks } : Inode).blockAt n = _
        rw [addresses n inode]
        by_cases old : n < fileBlocks ino
        · rw [if_pos old, if_neg (by omega)]
          exact (if_pos inode).symm
        · rw [if_neg old, if_pos (by omega)]
          unfold slot
          rw [if_pos inode]
      · have reference := @dataRef_written (afterAllocs d (blockCount + 1 - fileBlocks ino))
          { ino with blocks := blocks } size _ n entries indexAddress indexUpper (by omega)
        rw [reference, stored _ (by omega), if_neg (by omega)]
        unfold slot
        rw [if_neg inode]
        congr 1
        omega
  have sameMarks : ∀ b, b < 32768 →
      marked ((afterAllocs d (blockCount + 1 - fileBlocks ino)).writeBlock
        (nthAlloc d (32 - fileBlocks ino)) entries) b =
      marked (afterAllocs d (blockCount + 1 - fileBlocks ino)) b := by
    intro b small
    apply marked_congr
    apply Disk.writeBlock_other
    rw [bblock_eq]
    omega
  refine ⟨_, blocks, ran, grown.reshaped owned ?_ ?_, ?_, ?_⟩
  · intro call below
    obtain ⟨-, upper, -, -⟩ := nthAlloc_spec grown.succeed below
    rw [count, calls] at below
    rw [calls] at succeed
    rw [sameMarks _ upper]
    exact marked_afterAllocs_nthAlloc succeed below
  · intro b outside unused
    rw [Disk.writeBlock_other, afterAllocs_other d _ outside]
    intro same
    apply unused
    rw [same, ← indexAddress]
    exact indexBlock_mem (by rw [count]; exact large)
  · intro b small was
    rw [sameMarks b small]
    exact marked_afterAllocs_mono (Nat.zero_le _) was
  · rw [sameMarks _ (by rw [firstData_eq]; omega)]
    exact marked_firstData_afterAllocs d (by omega)

theorem growFile_spec {d : Disk} {ino : Inode} (uninit : Uninit) {blockCount : Nat} {size : UInt32}
    (owned : Owned d ino) (direct : fileBlocks ino ≤ 32) (grows : fileBlocks ino < blockCount)
    (few : blockCount ≤ 160) (counted : (size.toNat + 511) / 512 = blockCount)
    (succeed : AllocsSucceed d (allocCount (fileBlocks ino) blockCount)) :
    ∃ after blocks,
      growFile d uninit ino (fileBlocks ino) blockCount =
        some (after, { ino with blocks := blocks }) ∧
      Reshaped d ino after { ino with blocks := blocks, size := size } ∧
      (∀ b, b < 32768 → marked d b = true → marked after b = true) ∧
      marked after firstData = true := by
  by_cases small : blockCount ≤ 32
  · exact growFile_direct uninit owned grows small counted succeed
  · exact growFile_indirect uninit owned direct (by omega) few counted succeed

/-! ### Shrinking -/

def freedByShrink (d : Disk) (ino : Inode) (blockCount : Nat) : List Nat :=
  (List.range (min (fileBlocks ino) 32 - blockCount)).map (blockCount + ·) ++
    (if 32 < fileBlocks ino then
      ino.indexBlock :: (List.range (fileBlocks ino - 32)).map (fun i => dataRef d ino (32 + i))
    else [])

theorem freeIndirect_eq {d after : Disk} {ino : Inode} (buf : Memory) {limit : Nat}
    (few : limit ≤ 128) (indexOnDisk : ino.indexBlock < 32768) :
    freeIndirect after (d.readBlock ino.indexBlock buf 0) 0 limit =
      some (freeAll after ((List.range limit).map (fun i => dataRef d ino (32 + i)))) := by
  unfold freeIndirect freeAll
  rw [Nat.sub_zero, ← List.range_eq_range', List.foldl_map]
  apply Loop.foldlM_eq_foldl
  intro state i member
  rw [indirectEntry_readBlock buf indexOnDisk (by have := List.mem_range.mp member; omega)]
  rfl

theorem freedByShrink_lt {d : Disk} {ino : Inode} {blockCount id : Nat} (owned : Owned d ino)
    (member : id ∈ freedByShrink d ino blockCount) : id < 32768 := by
  unfold freedByShrink at member
  rcases List.mem_append.mp member with counted | indirect
  · obtain ⟨i, below, rfl⟩ := List.mem_map.mp counted
    rw [List.mem_range] at below
    omega
  · split at indirect
    · rename_i used
      rcases List.mem_cons.mp indirect with rfl | entry
      · exact (owned.inData _ (indexBlock_mem used)).2
      · obtain ⟨i, below, rfl⟩ := List.mem_map.mp entry
        rw [List.mem_range] at below
        have inFile : 32 + i < fileBlocks ino := by omega
        exact (owned.inData _ (dataRef_mem inFile)).2
    · cases indirect

theorem shrinkFile_eq {d : Disk} {ino : Inode} (uninit : Uninit) {blockCount : Nat}
    (owned : Owned d ino) (direct : blockCount ≤ 32) (shrinks : blockCount ≤ fileBlocks ino) :
    shrinkFile d uninit ino (fileBlocks ino) blockCount =
      some (freeAll d (freedByShrink d ino blockCount)) := by
  have few := owned.readable.fileBlocks_le
  have limit : subUint32 (min (fileBlocks ino) ndirect) blockCount =
      min (fileBlocks ino) 32 - blockCount := by
    rw [ndirect_eq, subUint32_eq (by omega) (by omega)]
  have counted : (List.range (min (fileBlocks ino) 32 - blockCount)).foldl
      (fun d i => freeBlock d ((blockCount + i) % 2 ^ 32)) d =
      freeAll d ((List.range (min (fileBlocks ino) 32 - blockCount)).map (blockCount + ·)) := by
    unfold freeAll
    rw [List.foldl_map]
    apply List.foldl_ext
    intro state i member
    have below := List.mem_range.mp member
    rw [Nat.mod_eq_of_lt (by omega)]
  unfold shrinkFile freedByShrink
  simp only [limit, counted]
  by_cases used : 32 < fileBlocks ino
  · have index := owned.inData _ (indexBlock_mem used)
    have onlySmall : ∀ id ∈ (List.range (min (fileBlocks ino) 32 - blockCount)).map (blockCount + ·),
        id < 32768 := by
      intro id member
      obtain ⟨i, below, rfl⟩ := List.mem_map.mp member
      rw [List.mem_range] at below
      omega
    have large : 10 ≤ ino.indexBlock := by omega
    have sameIndex := freeAll_other (d := d) onlySmall large
    have sameEntry : ∀ i, dataRef (freeAll d ((List.range (min (fileBlocks ino) 32 - blockCount)).map
        (blockCount + ·))) ino (32 + i) = dataRef d ino (32 + i) := by
      intro i
      exact dataRef_of_indexBlock sameIndex _
    have usesIndex : ndirect < fileBlocks ino := used
    have noIndexBlock : ¬ndirect < blockCount := Nat.not_lt.mpr direct
    rw [if_pos usesIndex, if_pos used, if_neg noIndexBlock, ndirect_eq,
      freeIndirect_eq uninit.indirectBlocks (by omega) index.2, freeAll_append]
    simp only [sameEntry]
    rfl
  · have noIndexBefore : ¬ndirect < fileBlocks ino := used
    rw [if_neg noIndexBefore, if_neg used, List.append_nil]

theorem shrink_reshaped {d : Disk} {ino : Inode} {blockCount : Nat} {size : UInt32}
    (owned : Owned d ino) (direct : blockCount ≤ 32) (shrinks : blockCount ≤ fileBlocks ino)
    (counted : (size.toNat + 511) / 512 = blockCount) :
    Reshaped d ino (freeAll d (freedByShrink d ino blockCount)) { ino with size := size } ∧
      ∀ b ∈ references (freeAll d (freedByShrink d ino blockCount)) { ino with size := size },
        b ∈ keptData d ino blockCount := by
  have count : fileBlocks { ino with size := size } = blockCount := by
    rw [fileBlocks_eq]
    exact counted
  have data : ∀ after n, n < blockCount →
      dataRef after { ino with size := size } n = dataRef d ino n := by
    intro after n below
    rw [dataRef_inode after ino size (by omega), dataRef_direct d ino (by omega)]
  have subset : ∀ b ∈ references (freeAll d (freedByShrink d ino blockCount))
      { ino with size := size }, b ∈ keptData d ino blockCount := by
    intro b member
    rcases mem_references.mp member with ⟨indirect, -⟩ | ⟨n, below, rfl⟩
    · omega
    · rw [count] at below
      exact mem_keptData.mpr ⟨n, by omega, below, (data _ n below).symm⟩
  refine ⟨⟨⟨?_, ?_, ?_, ?_⟩, ?_, ?_, ?_⟩, subset⟩
  · change size.toNat ≤ 81920
    omega
  · exact fun b member => owned.inData b (keptData_subset (subset b member))
  · intro m n belowM belowN same
    rw [count] at belowM belowN
    rw [data _ m belowM, data _ n belowN] at same
    exact owned.injective m n (by omega) (by omega) same
  · intro indirect
    omega
  · intro b member
    rw [count]
    exact Or.inl (subset b member)
  · intro grows
    omega
  · intro b outside _unused
    exact freeAll_other (fun id member => freedByShrink_lt owned member) outside

end CseLab.FileSystem
