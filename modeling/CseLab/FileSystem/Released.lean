import CseLab.FileSystem.Ownership

/-! Which block numbers `remove_file` and a shrinking `write_file` pass to
`free_block`, against the blocks the file gives up. The direct loops pass
positions in the file where the file's addresses are meant, and `remove_file`
leaves the index block out. -/

namespace CseLab.FileSystem

open ByteMemory

/-! ### The calls of `free_block` -/

def indirectCalls (indirectBlocks : Memory) (i limit : Nat) : Option (List Nat) :=
  (List.range' i (limit - i)).mapM (indirectEntry indirectBlocks)

/-- The arguments of `free_block` in `remove_file`, in order. -/
def removeCalls (d : Disk) (uninit : Uninit) (ino : Inode) : Option (List Nat) :=
  let originalBlock := ceil ino.size.toNat blockSize
  let limit := min originalBlock ndirect
  let direct := List.range limit
  if ndirect < originalBlock then
    let indirectBlocks := (freeAll d direct).readBlock ino.indexBlock uninit.indirectBlocks 0
    (indirectCalls indirectBlocks 0 (originalBlock - limit)).map (direct ++ ·)
  else some direct

def shrinkCalls (d : Disk) (uninit : Uninit) (ino : Inode) (originalBlock blockCount : Nat) :
    Option (List Nat) :=
  let limit := min originalBlock ndirect
  let direct := (List.range (subUint32 limit blockCount)).map
    (fun i => (blockCount + i) % 2 ^ 32)
  if ndirect < originalBlock then
    let indirectBlocks := (freeAll d direct).readBlock ino.indexBlock uninit.indirectBlocks 0
    let limit := originalBlock - ndirect
    if ndirect < blockCount then
      (indirectCalls indirectBlocks (blockCount - ndirect) limit).map (direct ++ ·)
    else (indirectCalls indirectBlocks 0 limit).map (direct ++ ino.indexBlock :: ·)
  else some direct

theorem freeIndirect_calls (d : Disk) (indirectBlocks : Memory) (i limit : Nat) :
    freeIndirect d indirectBlocks i limit =
      (indirectCalls indirectBlocks i limit).map (freeAll d) :=
  Loop.foldlM_lookup _ d

theorem removeFile_calls {d : Disk} {inum : Nat} {ino : Inode} (uninit : Uninit)
    (found : getInode d inum = some ino) :
    removeFile d uninit inum =
      (removeCalls d uninit ino).map (fun ids => freeInode (freeAll d ids) inum) := by
  have direct : (List.range (min (ceil ino.size.toNat blockSize) ndirect)).foldl
      (fun d id => freeBlock d id) d =
      freeAll d (List.range (min (ceil ino.size.toNat blockSize) ndirect)) := rfl
  unfold removeFile removeCalls
  rw [found]
  simp only [direct, freeIndirect_calls]
  split
  · rw [Option.map_map]
    cases indirectCalls _ 0 _ with
    | none => rfl
    | some entries =>
        change some (freeInode (freeAll (freeAll d _) entries) inum) =
          some (freeInode (freeAll d (_ ++ entries)) inum)
        rw [freeAll_append]
  · rfl

theorem shrinkFile_calls (d : Disk) (uninit : Uninit) (ino : Inode)
    (originalBlock blockCount : Nat) :
    shrinkFile d uninit ino originalBlock blockCount =
      (shrinkCalls d uninit ino originalBlock blockCount).map (freeAll d) := by
  have direct : (List.range (subUint32 (min originalBlock ndirect) blockCount)).foldl
      (fun d i => freeBlock d ((blockCount + i) % 2 ^ 32)) d =
      freeAll d ((List.range (subUint32 (min originalBlock ndirect) blockCount)).map
        (fun i => (blockCount + i) % 2 ^ 32)) := by
    unfold freeAll
    rw [List.foldl_map]
  unfold shrinkFile shrinkCalls
  simp only [direct, freeIndirect_calls]
  split
  · split
    · rw [Option.map_map]
      congr 1
      funext entries
      exact (freeAll_append _ _ _).symm
    · rw [Option.map_map]
      congr 1
      funext entries
      exact (freeAll_append _ _ (ino.indexBlock :: entries)).symm
  · rfl

theorem indirectCalls_some {indirectBlocks : Memory} {i limit : Nat} {ids : List Nat}
    (every : indirectCalls indirectBlocks i limit = some ids) :
    ids = (List.range' i (limit - i)).map (fun i => (load32 indirectBlocks (4 * i)).toNat) := by
  unfold indirectCalls at every
  generalize List.range' i (limit - i) = positions at every ⊢
  induction positions generalizing ids with
  | nil => exact (Option.some.inj every).symm
  | cons position rest ih =>
      rw [List.mapM_cons] at every
      obtain ⟨id, here, tail⟩ := Option.bind_eq_some_iff.mp every
      obtain ⟨later, found, pure⟩ := Option.bind_eq_some_iff.mp tail
      unfold indirectEntry at here
      split at here
      · rw [← Option.some.inj here] at pure
        rw [← Option.some.inj pure, ih found, List.map_cons]
      · cases here

/-! ### The blocks a file has from some position on -/

def directPositions (ino : Inode) (first : Nat) : List Nat :=
  List.range' first (min (fileBlocks ino) ndirect - first)

def indirectBlocksFrom (d : Disk) (uninit : Uninit) (ino : Inode) (first : Nat) : List Nat :=
  (List.range' (first - ndirect) (fileBlocks ino - ndirect - (first - ndirect))).map
    (fun i => (load32 (d.readBlock ino.indexBlock uninit.indirectBlocks 0) (4 * i)).toNat)

def blocksFrom (d : Disk) (uninit : Uninit) (ino : Inode) (first : Nat) : List Nat :=
  (directPositions ino first).map ino.blockAt ++ indirectBlocksFrom d uninit ino first

def indexBlocks (ino : Inode) : List Nat :=
  if ndirect < fileBlocks ino then [ino.indexBlock] else []

theorem indirectBlocksFrom_nil {d : Disk} {uninit : Uninit} {ino : Inode} {first : Nat}
    (direct : fileBlocks ino ≤ 32) : indirectBlocksFrom d uninit ino first = [] := by
  unfold indirectBlocksFrom
  rw [ndirect_eq, Nat.sub_eq_zero_of_le direct, Nat.zero_sub]
  rfl

/-! ### What `remove_file` releases -/

theorem removeCalls_some {d : Disk} {uninit : Uninit} {ino : Inode} {ids : List Nat}
    (calls : removeCalls d uninit ino = some ids) :
    ∃ entries, ids = directPositions ino 0 ++ entries ∧
      entries.length = fileBlocks ino - ndirect := by
  have direct : List.range (min (fileBlocks ino) ndirect) = directPositions ino 0 := by
    unfold directPositions
    rw [Nat.sub_zero, List.range_eq_range']
  unfold removeCalls at calls
  simp only at calls
  split at calls
  · rename_i indirect
    obtain ⟨entries, every, rfl⟩ := Option.map_eq_some_iff.mp calls
    refine ⟨entries, ?_, ?_⟩
    · rw [← direct]
      rfl
    · rw [indirectCalls_some every, List.length_map, List.length_range']
      change fileBlocks ino - min (fileBlocks ino) ndirect - 0 = _
      change ndirect < fileBlocks ino at indirect
      omega
  · rename_i small
    change ¬ndirect < fileBlocks ino at small
    refine ⟨[], ?_, ?_⟩
    · rw [← Option.some.inj calls, ← direct, List.append_nil]
      rfl
    · rw [List.length_nil]
      omega

/-- The file has no index block and its addresses are its own positions. -/
def RemoveReleases (ino : Inode) : Prop :=
  fileBlocks ino ≤ ndirect ∧ (directPositions ino 0).Perm ((directPositions ino 0).map ino.blockAt)

theorem removeCalls_perm_iff {d : Disk} {uninit : Uninit} {ino : Inode} {ids : List Nat}
    (calls : removeCalls d uninit ino = some ids) :
    ids.Perm (indexBlocks ino ++ blocksFrom d uninit ino 0) ↔ RemoveReleases ino := by
  obtain ⟨entries, rfl, count⟩ := removeCalls_some calls
  by_cases small : fileBlocks ino ≤ ndirect
  · have none : entries = [] := List.eq_nil_of_length_eq_zero (by omega)
    unfold indexBlocks blocksFrom
    rw [none, if_neg (Nat.not_lt.mpr small), indirectBlocksFrom_nil small, List.append_nil,
      List.nil_append, List.append_nil]
    exact (and_iff_right small).symm
  · constructor
    · intro same
      have lengths := same.length_eq
      unfold indexBlocks blocksFrom indirectBlocksFrom at lengths
      rw [if_pos (Nat.not_le.mp small)] at lengths
      simp only [List.length_append, List.length_map, List.length_range', List.length_singleton]
        at lengths
      omega
    · exact fun releases => absurd releases.1 small

/-! ### What a shrinking `write_file` releases -/

theorem freed_positions {ino : Inode} {first : Nat} (direct : first ≤ 32)
    (fewer : first < fileBlocks ino) :
    (List.range (subUint32 (min (fileBlocks ino) ndirect) first)).map
      (fun i => (first + i) % 2 ^ 32) = directPositions ino first := by
  have few : min (fileBlocks ino) ndirect ≤ 32 := Nat.min_le_right _ _
  have enough : first ≤ min (fileBlocks ino) ndirect := by
    rw [ndirect_eq]
    omega
  unfold directPositions
  rw [subUint32_eq enough (by omega), List.range'_eq_map_range]
  apply List.map_congr_left
  intro i member
  rw [List.mem_range] at member
  exact Nat.mod_eq_of_lt (by omega)

theorem indirectBlocksFrom_freed {d : Disk} {uninit : Uninit} {ino : Inode} {first : Nat}
    (elsewhere : ino.indexBlock ≠ bblock 0) :
    indirectBlocksFrom (freeAll d (directPositions ino first)) uninit ino first =
      indirectBlocksFrom d uninit ino first := by
  have same : (freeAll d (directPositions ino first)).blocks ino.indexBlock =
      d.blocks ino.indexBlock := by
    refine Loop.foldl_invariant
      (fun after : Disk => after.blocks ino.indexBlock = d.blocks ino.indexBlock) rfl ?_
    intro after id member kept
    unfold directPositions at member
    rw [List.mem_range'_1, ndirect_eq] at member
    have block : bblock id = bblock 0 := by
      rw [bblock_eq, bblock_eq]
      omega
    rw [freeBlock_other after (by rw [block]; exact elsewhere), kept]
  unfold indirectBlocksFrom Disk.readBlock
  rw [same]

/-- The file keeps no entry of its index block, and the addresses it gives up
are their own positions. An index block that is itself the bitmap block of these
positions is read after they are freed. -/
def ShrinkReleases (d : Disk) (uninit : Uninit) (ino : Inode) (blockCount : Nat) : Prop :=
  blockCount ≤ ndirect ∧
    if ndirect < fileBlocks ino ∧ ino.indexBlock = bblock 0 then
      (directPositions ino blockCount ++ indirectBlocksFrom
          (freeAll d (directPositions ino blockCount)) uninit ino blockCount).Perm
        ((directPositions ino blockCount).map ino.blockAt ++
          indirectBlocksFrom d uninit ino blockCount)
    else (directPositions ino blockCount).Perm ((directPositions ino blockCount).map ino.blockAt)

def givenUp (d : Disk) (uninit : Uninit) (ino : Inode) (blockCount : Nat) : List Nat :=
  (if blockCount ≤ ndirect then indexBlocks ino else []) ++ blocksFrom d uninit ino blockCount

private theorem shrinkCalls_direct {d : Disk} {uninit : Uninit} {ino : Inode} {blockCount : Nat}
    {ids : List Nat} (direct : blockCount ≤ 32) (fewer : blockCount < fileBlocks ino)
    (calls : shrinkCalls d uninit ino (fileBlocks ino) blockCount = some ids) :
    ids = directPositions ino blockCount ++ (indexBlocks ino ++ indirectBlocksFrom
      (freeAll d (directPositions ino blockCount)) uninit ino blockCount) := by
  unfold shrinkCalls at calls
  simp only [freed_positions direct fewer] at calls
  split at calls
  · rename_i indirect
    rw [if_neg (by rw [ndirect_eq]; omega)] at calls
    obtain ⟨entries, every, rfl⟩ := Option.map_eq_some_iff.mp calls
    rw [indirectCalls_some every]
    have first : blockCount - ndirect = 0 := Nat.sub_eq_zero_of_le direct
    unfold indexBlocks indirectBlocksFrom
    rw [if_pos indirect, first]
    rfl
  · rename_i small
    unfold indexBlocks
    rw [if_neg small, indirectBlocksFrom_nil (Nat.not_lt.mp small), List.append_nil,
      List.append_nil]
    exact (Option.some.inj calls).symm

private theorem shrinkCalls_indirect {d : Disk} {uninit : Uninit} {ino : Inode}
    {blockCount : Nat} {ids : List Nat} (past : 32 < blockCount)
    (fewer : blockCount < fileBlocks ino)
    (calls : shrinkCalls d uninit ino (fileBlocks ino) blockCount = some ids) :
    fileBlocks ino - blockCount < ids.length := by
  have size := ino.size.toNat_lt
  have count := fileBlocks_eq ino
  have limit : subUint32 (min (fileBlocks ino) ndirect) blockCount =
      2 ^ 32 - (blockCount - 32) := by
    rw [ndirect_eq, Nat.min_eq_right (by omega)]
    unfold subUint32 toUint32
    omega
  unfold shrinkCalls at calls
  simp only [limit] at calls
  rw [if_pos (by rw [ndirect_eq]; omega), if_pos (by rw [ndirect_eq]; omega)] at calls
  obtain ⟨entries, every, rfl⟩ := Option.map_eq_some_iff.mp calls
  rw [List.length_append, List.length_map, List.length_range]
  omega

theorem shrinkCalls_perm_iff {d : Disk} {uninit : Uninit} {ino : Inode} {blockCount : Nat}
    {ids : List Nat} (fewer : blockCount < fileBlocks ino)
    (calls : shrinkCalls d uninit ino (fileBlocks ino) blockCount = some ids) :
    ids.Perm (givenUp d uninit ino blockCount) ↔ ShrinkReleases d uninit ino blockCount := by
  unfold givenUp ShrinkReleases blocksFrom
  by_cases direct : blockCount ≤ ndirect
  · rw [shrinkCalls_direct (by rw [ndirect_eq] at direct; exact direct) fewer calls, if_pos direct,
      and_iff_right direct, (List.perm_append_comm_assoc _ _ _).congr_left,
      List.perm_append_left_iff]
    split
    · rfl
    · rename_i apart
      by_cases small : fileBlocks ino ≤ 32
      · rw [indirectBlocksFrom_nil small, indirectBlocksFrom_nil small, List.append_nil,
          List.append_nil]
      · have elsewhere : ino.indexBlock ≠ bblock 0 :=
          fun same => apart ⟨Nat.not_le.mp small, same⟩
        rw [indirectBlocksFrom_freed elsewhere]
        exact List.perm_append_right_iff _
  · constructor
    · intro same
      have more := shrinkCalls_indirect (by rw [ndirect_eq] at direct; omega) fewer calls
      have lengths := same.length_eq
      unfold directPositions indirectBlocksFrom at lengths
      rw [if_neg direct] at lengths
      simp only [List.length_append, List.length_map, List.length_range', List.length_nil]
        at lengths
      omega
    · exact fun releases => absurd releases.1 direct

/-! ### Both functions -/

theorem references_eq_blocksFrom {d : Disk} {ino : Inode} (uninit : Uninit)
    (onDisk : ino.indexBlock < 32768) (few : fileBlocks ino ≤ 160) :
    references d ino = indexBlocks ino ++ blocksFrom d uninit ino 0 := by
  have split : List.range (fileBlocks ino) =
      directPositions ino 0 ++ (List.range' 0 (fileBlocks ino - 32)).map (32 + ·) := by
    unfold directPositions
    rw [List.map_add_range', Nat.add_zero, Nat.sub_zero, ndirect_eq, List.range_eq_range']
    by_cases indirect : 32 < fileBlocks ino
    · rw [Nat.min_eq_right (by omega)]
      have joined := @List.range'_append_1 0 32 (fileBlocks ino - 32)
      have whole : 32 + (fileBlocks ino - 32) = fileBlocks ino := by omega
      rw [whole, Nat.zero_add] at joined
      exact joined.symm
    · rw [Nat.min_eq_left (by omega), Nat.sub_eq_zero_of_le (by omega)]
      simp
  unfold references indexBlocks blocksFrom indirectBlocksFrom
  congr 1
  rw [split, List.map_append, List.map_map]
  congr 1
  · apply List.map_congr_left
    intro n member
    unfold directPositions at member
    rw [ndirect_eq, List.mem_range'_1] at member
    exact dataRef_direct d ino (by omega)
  · rw [ndirect_eq]
    apply List.map_congr_left
    intro i member
    rw [List.mem_range'_1] at member
    change dataRef d ino (32 + i) = _
    rw [dataRef_indirect d ino (Nat.le_add_right 32 i), Nat.add_sub_cancel_left]
    congr 1
    apply load32_congr
    intro address lower upper
    rw [Disk.readBlock_apply, if_pos ⟨onDisk, by omega, by omega⟩, Nat.sub_zero]

theorem Placed.no_positions {d : Disk} {ino : Inode} (placed : Placed d ino) {first : Nat}
    (same : (directPositions ino first).Perm ((directPositions ino first).map ino.blockAt)) :
    min (fileBlocks ino) ndirect ≤ first := by
  by_contra some
  have position : first ∈ directPositions ino first := by
    unfold directPositions
    rw [List.mem_range'_1]
    omega
  obtain ⟨n, member, address⟩ := List.mem_map.mp (same.mem_iff.mp position)
  unfold directPositions at member
  rw [List.mem_range'_1] at member
  have below : n < fileBlocks ino := by omega
  have direct : n < ndirect := by omega
  have lower := (placed.inData _ (dataRef_mem below)).1
  have data := dataRef_direct d ino direct
  rw [data, address] at lower
  rw [ndirect_eq] at direct some
  omega

theorem Placed.remove_releases {d : Disk} {ino : Inode} (placed : Placed d ino)
    (releases : RemoveReleases ino) : fileBlocks ino = 0 := by
  have none := placed.no_positions releases.2
  have direct := releases.1
  omega

theorem Placed.shrink_releases {d : Disk} {uninit : Uninit} {ino : Inode} {blockCount : Nat}
    (placed : Placed d ino) (fewer : blockCount < fileBlocks ino)
    (releases : ShrinkReleases d uninit ino blockCount) : blockCount = ndirect := by
  obtain ⟨direct, same⟩ := releases
  rw [if_neg] at same
  · have none := placed.no_positions same
    omega
  · rintro ⟨indirect, index⟩
    have lower := (placed.inData _ (indexBlock_mem indirect)).1
    rw [index] at lower
    exact absurd lower (by decide)

/-- The numbers passed to `free_block` are the blocks given up only where the
addresses given up are their own positions and no index block is forgotten. -/
theorem releases_own_blocks {d : Disk} {inum : Nat} {ino : Inode} (uninit : Uninit)
    (found : getInode d inum = some ino) :
    (∀ ids, removeCalls d uninit ino = some ids →
      removeFile d uninit inum = some (freeInode (freeAll d ids) inum) ∧
      (ids.Perm (indexBlocks ino ++ blocksFrom d uninit ino 0) ↔ RemoveReleases ino)) ∧
    ∀ (size : Int) ids, toUint32 (ceilInt size blockSize) < fileBlocks ino →
      shrinkCalls d uninit ino (fileBlocks ino) (toUint32 (ceilInt size blockSize)) = some ids →
      shrinkFile d uninit ino (fileBlocks ino) (toUint32 (ceilInt size blockSize)) =
        some (freeAll d ids) ∧
      (ids.Perm (givenUp d uninit ino (toUint32 (ceilInt size blockSize))) ↔
        ShrinkReleases d uninit ino (toUint32 (ceilInt size blockSize))) := by
  constructor
  · intro ids calls
    refine ⟨?_, removeCalls_perm_iff calls⟩
    rw [removeFile_calls uninit found, calls]
    rfl
  · intro size ids fewer calls
    refine ⟨?_, shrinkCalls_perm_iff fewer calls⟩
    rw [shrinkFile_calls, calls]
    rfl

private theorem one_block : ∃ d ino, put (construct .zero) .zero 1 [97] = some d ∧
    getInode d 1 = some ino ∧ Placed d ino ∧ fileBlocks ino = 1 := by
  obtain ⟨root, live⟩ : ∃ root, getInode (construct .zero) 1 = some root :=
    Option.isSome_iff_exists.mp (by decide)
  have unwritten := Unwritten.construct .zero
  have clear : ∀ b, b < 2048 → marked (construct .zero) b = false :=
    fun b below => unwritten.clear b (by rw [blockNum_eq]; omega)
  have zero : fileBlocks root = 0 := by
    rw [fileBlocks_eq, unwritten.empty 1 root live]
    rfl
  have fits : Fits (construct .zero) 1 root ((1 + 511) / 512) := by
    refine ⟨Or.inl (by omega), ?_, fun isLast => absurd isLast (by decide)⟩
    intro _grows
    apply allocsSucceed_fresh clear
    rw [zero]
    decide
  obtain ⟨d, ino, ran, rewritten, sized, -⟩ := writeFile_spec .zero (cStr [97] .zero) live
    (owned_empty (unwritten.empty 1 root live)) (fun isLast => absurd isLast (by decide)) fits
    (by decide)
  refine ⟨d, ino, ran, rewritten.found, rewritten.toPlaced, ?_⟩
  rw [fileBlocks_eq, sized]

private theorem one_block_calls {d : Disk} {ino : Inode} (count : fileBlocks ino = 1) :
    removeCalls d .zero ino = some [0] ∧ shrinkCalls d .zero ino (fileBlocks ino) 0 = some [0] := by
  constructor
  · unfold removeCalls
    change (if ndirect < fileBlocks ino then _ else
      some (List.range (min (fileBlocks ino) ndirect))) = _
    rw [count]
    rfl
  · rw [count]
    rfl

theorem releases_own_blocks_one : ∃ d ino, getInode d 1 = some ino ∧
    (removeFile d .zero 1 = some (freeInode (freeAll d [0]) 1) ∧
      ([0].Perm (indexBlocks ino ++ blocksFrom d .zero ino 0) ↔ RemoveReleases ino)) ∧
    (shrinkFile d .zero ino (fileBlocks ino) 0 = some (freeAll d [0]) ∧
      ([0].Perm (givenUp d .zero ino 0) ↔ ShrinkReleases d .zero ino 0)) := by
  obtain ⟨d, ino, -, live, -, count⟩ := one_block
  obtain ⟨removes, shrinks⟩ := one_block_calls (d := d) count
  have fewer : toUint32 (ceilInt 0 blockSize) < fileBlocks ino := by
    rw [count]
    decide
  refine ⟨d, ino, live, ?_, ?_⟩
  · exact (releases_own_blocks .zero live).1 [0] removes
  · exact (releases_own_blocks .zero live).2 0 [0] fewer shrinks

/-- One byte written to the root directory, which is then removed, or made empty. -/
theorem remove_frees_position : ∃ d ino,
    put (construct .zero) .zero 1 [97] = some d ∧ getInode d 1 = some ino ∧
      (removeCalls d .zero ino = some [0] ∧
        ¬[0].Perm (indexBlocks ino ++ blocksFrom d .zero ino 0)) ∧
      shrinkCalls d .zero ino (fileBlocks ino) 0 = some [0] ∧
        ¬[0].Perm (givenUp d .zero ino 0) := by
  obtain ⟨d, ino, ran, live, placed, count⟩ := one_block
  obtain ⟨removes, shrinks⟩ := one_block_calls (d := d) count
  have fewer : 0 < fileBlocks ino := by
    rw [count]
    exact Nat.one_pos
  refine ⟨d, ino, ran, live, ⟨removes, ?_⟩, shrinks, ?_⟩
  · rw [removeCalls_perm_iff removes]
    intro releases
    have none := placed.remove_releases releases
    omega
  · rw [shrinkCalls_perm_iff fewer shrinks]
    intro releases
    cases placed.shrink_releases fewer releases

end CseLab.FileSystem
