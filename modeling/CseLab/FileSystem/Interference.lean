import CseLab.FileSystem.SharedDisk

/-! The alloc and free branches of `write_file` among the steps of another
handler. `Supplied` is what either branch hands to the data transfer: the blocks
the file keeps are the ones it had, the others come from `alloc_block` in order. -/

namespace CseLab.FileSystem

open ByteMemory Interleaving

variable {d : Disk} {inum : Handler → Nat} {ino : Handler → Inode} {count : Handler → Nat}
variable {h : Handler} {w : World d ino count}

/-! ### `alloc_block` -/

theorem scan_cases (apart : PutsApart d inum ino count) {i j : Nat} (inBitmap : 2 ≤ i)
    (onDisk : i < 10) (room : (w.fresh h).length < need ino count h)
    (start : (i - 2) * 4096 + j ≤ nthAlloc d w.calls) (data : 352 ≤ (i - 2) * 4096 + j) :
    match (List.range' j (bpb - j)).find?
        (fun bit => !notFree (w.disk.readBlock i (fun _ => 0) 0) bit) with
    | some bit => bit < 4096 ∧ (i - 2) * 4096 + bit = nthAlloc d w.calls
    | none => (i - 2) * 4096 + 4096 ≤ nthAlloc d w.calls := by
  have scanned : ∀ bit, bit < 4096 → notFree (w.disk.readBlock i (fun _ => 0) 0) bit =
      marked w.disk ((i - 2) * 4096 + bit) :=
    fun bit below => (marked_position w.disk inBitmap (by omega) below).symm
  have marks := fun b lower upper => w.marked_next apart room (b := b) lower upper
  have next : nthAlloc d w.calls < (i - 2) * 4096 + 4096 →
      notFree (w.disk.readBlock i (fun _ => 0) 0) (nthAlloc d w.calls - (i - 2) * 4096) =
        false := by
    intro inBlock
    have position : (i - 2) * 4096 + (nthAlloc d w.calls - (i - 2) * 4096) =
        nthAlloc d w.calls := by omega
    rw [scanned _ (by omega), position, ← Bool.not_eq_true]
    exact fun marked => (marks _ (by omega) (Nat.le_refl _)).mp marked rfl
  split
  · rename_i bit found
    obtain ⟨clear, member, earlier⟩ := List.find?_range'_eq_some.mp found
    rw [List.mem_range'_1] at member
    have below : bit < 4096 := by
      change j ≤ bit ∧ bit < j + (4096 - j) at member
      omega
    refine ⟨below, ?_⟩
    rw [scanned bit below, Bool.not_eq_true'] at clear
    by_contra different
    by_cases before : (i - 2) * 4096 + bit ≤ nthAlloc d w.calls
    · have marked := (marks _ (by omega) before).mpr different
      rw [clear] at marked
      cases marked
    · have skipped := earlier (nthAlloc d w.calls - (i - 2) * 4096) (by omega) (by omega)
      rw [Bool.not_not, next (by omega)] at skipped
      cases skipped
  · rename_i none
    by_contra here
    rw [List.find?_eq_none] at none
    have inside : nthAlloc d w.calls - (i - 2) * 4096 ∈ List.range' j (bpb - j) := by
      rw [List.mem_range'_1]
      change j ≤ _ ∧ _ < j + (4096 - j)
      omega
    apply none _ inside
    rw [next (by omega)]
    rfl

/-- While the other handler keeps off the bitmap block of the next allocation,
that allocation is still to come. -/
theorem Rely.calls_eq (apart : PutsApart d inum ino count) {pending : Option DiskOp}
    {later : World d ino count} (relied : Rely inum h pending w later)
    (room : (w.fresh h).length < need ino count h)
    (same : later.disk.blocks (bblock (nthAlloc d w.calls)) =
      w.disk.blocks (bblock (nthAlloc d w.calls))) : later.calls = w.calls := by
  have below := w.calls_lt room
  have first := nthAlloc_firstClear apart.succeed below
  have clear := (w.marked_next apart room first.lower (Nat.le_refl _)).not.mpr (by simp)
  rw [← marked_congr same, later.marks _ below _ first.lower (Nat.le_refl _)] at clear
  by_contra different
  have calls := relied.calls
  have few := later.calls_le
  have fits : AllocsSucceed d later.calls := fun index before => apart.succeed index (by omega)
  have rises : w.calls < later.calls := by omega
  exact clear (marked_afterAllocs_nthAlloc fits rises)

theorem safe_allocLoop (apart : PutsApart d inum ino count) {blocks i j : Nat} {fresh : List Nat}
    (inBitmap : 2 ≤ i) (all : i + blocks = 10) (data : 352 ≤ (i - 2) * 4096 + j)
    (given : w.fresh h = fresh) (room : fresh.length < need ino count h)
    (start : (i - 2) * 4096 + j ≤ nthAlloc d w.calls) :
    (sharing d inum ino count).Safe h (fun id later => later.fresh h = fresh ++ [id])
      (Stepwise.allocLoop blocks i j) w := by
  induction blocks generalizing i j w with
  | zero =>
      exfalso
      rw [← given] at room
      obtain ⟨-, onDisk, -, -⟩ := nthAlloc_spec apart.succeed (w.calls_lt room)
      omega
  | succ blocks ih =>
      have nextStart : (i + 1 - 2) * 4096 + 0 = (i - 2) * 4096 + 4096 := by omega
      have dataNext : 352 ≤ (i + 1 - 2) * 4096 + 0 := by
        rw [nextStart]
        exact Nat.le_add_left_of_le (by decide)
      unfold Stepwise.allocLoop
      rw [Stepwise.readBlock_bind]
      apply safe_read
      intro later relied
      have givenLater : later.fresh h = fresh := relied.fresh.trans given
      have roomLater : (later.fresh h).length < need ino count h := by rw [givenLater]; exact room
      have startLater := start.trans
        (nthAlloc_mono apart.succeed relied.calls (later.calls_lt roomLater))
      have scan := scan_cases apart inBitmap (by omega) roomLater startLater data
      cases found : (List.range' j (bpb - j)).find?
          (fun bit => !notFree (later.disk.readBlock i (fun _ => 0) 0) bit) with
      | none =>
          rw [found] at scan
          simp only at scan ⊢
          rw [← nextStart] at scan
          exact ih (by omega) (by omega) dataNext givenLater scan
      | some bit =>
          rw [found] at scan
          simp only [Stepwise.writeBlock_bind]
          obtain ⟨below, here⟩ := scan
          have block : bblock (nthAlloc d later.calls) = i := by
            rw [bblock_eq]
            omega
          have position : nthAlloc d later.calls % bpb = bit := by
            change nthAlloc d later.calls % 4096 = bit
            omega
          intro last reliedWrite
          have sameBlock : last.disk.blocks i = later.disk.blocks i :=
            reliedWrite.pending _ _ rfl
          have calls := reliedWrite.calls_eq apart roomLater (by rw [block]; exact sameBlock)
          have givenLast : last.fresh h = fresh := reliedWrite.fresh.trans givenLater
          have roomLast : (last.fresh h).length < need ino count h := by
            rw [givenLast]
            exact room
          have marking : setMark last.disk (nthAlloc d last.calls) =
              last.disk.writeBlock (bblock (nthAlloc d last.calls))
                (markBit (later.disk.readBlock i (fun _ => 0) 0) bit) := by
            unfold setMark Disk.readBlock
            rw [calls, block, position, sameBlock]
          have writes := last.take_block apart roomLast marking
          rw [calls, block] at writes
          refine ⟨last.take apart roomLast, writes.disk, writes.keeps, ?_⟩
          intro final reliedFinal
          have result : (i - 2) * bpb + bit = nthAlloc d last.calls := here.trans (by rw [calls])
          rw [reliedFinal.fresh, ← givenLast, result]
          exact give_self _ _ _

theorem safe_allocBlock (apart : PutsApart d inum ino count) {fresh : List Nat}
    (given : w.fresh h = fresh) (room : fresh.length < need ino count h) :
    (sharing d inum ino count).Safe h (fun id later => later.fresh h = fresh ++ [id])
      Stepwise.allocBlock w := by
  have roomHere : (w.fresh h).length < need ino count h := by rw [given]; exact room
  obtain ⟨lower, -, -, -⟩ := nthAlloc_spec apart.succeed (w.calls_lt roomHere)
  have loop : (sharing d inum ino count).Safe h (fun id later => later.fresh h = fresh ++ [id])
      (Stepwise.allocLoop 8 2 352) w :=
    safe_allocLoop apart (Nat.le_refl _) rfl (Nat.le_refl _) given room lower
  exact loop

theorem given_onDisk (apart : PutsApart d inum ino count) {fresh : List Nat} {id : Nat}
    (gave : w.fresh h = fresh ++ [id]) : id < 32768 := by
  have member : id ∈ w.fresh h := by
    rw [gave]
    exact List.mem_append_right _ (List.mem_singleton_self id)
  exact (w.fresh_spec apart member).2.1

/-! ### `free_block` -/

/-- What a handler has before it transfers data: the blocks of its file as they
were, and the allocated ones. -/
structure Arranging (w : World d ino count) (h : Handler) (fresh : List Nat) : Prop where
  given : w.fresh h = fresh
  intact : ∀ b ∈ references d (ino h), w.disk.blocks b = d.blocks b

theorem Arranging.rely {fresh : List Nat} {pending : Option DiskOp} {later : World d ino count}
    (arranging : Arranging w h fresh) (relied : Rely inum h pending w later) :
    Arranging later h fresh where
  given := relied.fresh.trans arranging.given
  intact := fun b member => (relied.blocks b (.inl member)).trans (arranging.intact b member)

theorem freedByPut_lt (apart : PutsApart d inum ino count) {id : Nat}
    (freed : id ∈ freedByPut d (ino h) (count h)) : id < 32768 := by
  unfold freedByPut at freed
  split at freed
  · cases freed
  · exact freedByShrink_lt (apart.owned h) freed

theorem safe_freeBlock (apart : PutsApart d inum ino count) {id : Nat} {fresh : List Nat}
    (freed : id ∈ freedByPut d (ino h) (count h)) (arranging : Arranging w h fresh) :
    (sharing d inum ino count).Safe h (fun _ later => Arranging later h fresh)
      (Stepwise.freeBlock id) w := by
  have onDisk := freedByPut_lt apart freed
  apply safe_update
  intro last relied
  refine ⟨last.free apart freed, last.free_block apart freed onDisk rfl, ?_⟩
  have kept := arranging.rely relied
  have after : Arranging (last.free apart freed) h fresh := by
    refine ⟨kept.given, fun b member => ?_⟩
    rw [← kept.intact b member]
    apply freeBlock_other
    have lower := ((apart.owned h).inData b member).1
    rw [bblock_eq]
    omega
  exact Discipline.Safe.ret after (fun later reliedLater holds => holds.rely reliedLater)

theorem safe_freeIndirect (apart : PutsApart d inum ino count) {limit : Nat} {fresh : List Nat}
    {entries : Memory} (entry : ∀ i, i < limit → ∃ id ∈ freedByPut d (ino h) (count h),
      indirectEntry entries i = some id) (arranging : Arranging w h fresh) :
    (sharing d inum ino count).Safe h (fun _ later => Arranging later h fresh)
      (Stepwise.freeIndirect entries 0 limit) w := by
  unfold Stepwise.freeIndirect
  rw [Nat.sub_zero, ← List.range_eq_range']
  apply Discipline.Safe.foldlM_range (fun _ _ later => Arranging later h fresh)
  · exact fun _counter _result _world _later relied holds => holds.rely relied
  · exact arranging
  · intro i _ world below holds
    obtain ⟨id, freed, here⟩ := entry i below
    rw [here]
    exact safe_freeBlock apart freed holds

theorem safe_shrinkFile (apart : PutsApart d inum ino count) (uninit : Uninit) {fresh : List Nat}
    (shrinks : count h ≤ fileBlocks (ino h)) (arranging : Arranging w h fresh) :
    (sharing d inum ino count).Safe h (fun _ later => Arranging later h fresh)
      (Stepwise.shrinkFile uninit (ino h) (fileBlocks (ino h)) (count h)) w := by
  have few := (apart.owned h).readable.fileBlocks_le
  have direct : count h ≤ 32 := by
    rcases apart.oneSide h with old | new <;> omega
  have freed : freedByPut d (ino h) (count h) = freedByShrink d (ino h) (count h) :=
    if_neg (Nat.not_lt.mpr shrinks)
  have limit : subUint32 (min (fileBlocks (ino h)) ndirect) (count h) =
      min (fileBlocks (ino h)) 32 - count h := by
    rw [ndirect_eq, subUint32_eq (by omega) (by omega)]
  unfold Stepwise.shrinkFile
  simp only [limit]
  apply Discipline.Safe.bind (fun _ later => Arranging later h fresh)
  · apply Discipline.Safe.foldlM_range (fun _ _ later => Arranging later h fresh)
    · exact fun _counter _result _world _later relied holds => holds.rely relied
    · exact arranging
    · intro i _ world below holds
      rw [Nat.mod_eq_of_lt (by omega)]
      apply safe_freeBlock apart _ holds
      rw [freed]
      exact List.mem_append_left _ (List.mem_map.mpr ⟨i, List.mem_range.mpr below, rfl⟩)
  · intro _ world holds
    by_cases used : 32 < fileBlocks (ino h)
    · have usesIndex : ndirect < fileBlocks (ino h) := used
      rw [if_pos usesIndex, Stepwise.readBlock_bind]
      have index := (apart.owned h).inData _ (indexBlock_mem used)
      have indirect : ∀ id, id = (ino h).indexBlock ∨ (∃ i, i < fileBlocks (ino h) - 32 ∧
          dataRef d (ino h) (32 + i) = id) → id ∈ freedByPut d (ino h) (count h) := by
        intro id place
        rw [freed]
        apply List.mem_append_right
        rw [if_pos used, List.mem_cons, List.mem_map]
        simpa only [List.mem_range] using place
      apply safe_read
      intro later relied
      have kept := holds.rely relied
      have noIndexBlock : ¬ndirect < count h := Nat.not_lt.mpr direct
      rw [if_neg noIndexBlock]
      apply Discipline.Safe.bind (fun _ later => Arranging later h fresh)
      · exact safe_freeBlock apart (indirect _ (.inl rfl)) kept
      · intro _ last final
        apply safe_freeIndirect apart _ final
        intro i below
        rw [ndirect_eq] at below
        refine ⟨_, indirect _ (.inr ⟨i, below, rfl⟩), ?_⟩
        rw [indirectEntry_readBlock uninit.indirectBlocks index.2 (by omega),
          dataRef_of_indexBlock (kept.intact _ (indexBlock_mem used))]
    · have noIndexBefore : ¬ndirect < fileBlocks (ino h) := used
      rw [if_neg noIndexBefore]
      exact Discipline.Safe.ret holds (fun later relied same => same.rely relied)

/-! ### The blocks of the new size -/

structure Supplied (d : Disk) (ino : Inode) (supply : List Nat) (after : Disk) (next : Inode) :
    Prop where
  oneSide : fileBlocks ino ≤ 32 ∨ fileBlocks next ≤ 32
  size_le : next.size.toNat ≤ 81920
  old : ∀ n, n < fileBlocks ino → n < fileBlocks next → dataRef after next n = dataRef d ino n
  new : ∀ n, fileBlocks ino ≤ n → n < fileBlocks next →
    supply[slot (fileBlocks ino) n]? = some (dataRef after next n)
  index : 32 < fileBlocks next → supply[32 - fileBlocks ino]? = some next.indexBlock

namespace Supplied

variable {d after : Disk} {ino next : Inode} {supply : List Nat}

theorem origin (supplied : Supplied d ino supply after next) {b : Nat}
    (member : b ∈ references after next) : b ∈ references d ino ∨ b ∈ supply := by
  rcases mem_references.mp member with ⟨indirect, rfl⟩ | ⟨n, below, rfl⟩
  · exact .inr (List.mem_of_getElem? (supplied.index indirect))
  · by_cases kept : n < fileBlocks ino
    · rw [supplied.old n kept below]
      exact .inl (dataRef_mem kept)
    · exact .inr (List.mem_of_getElem? (supplied.new n (by omega) below))

theorem position {supply : List Nat} (nodup : supply.Nodup) {i j b : Nat}
    (left : supply[i]? = some b) (right : supply[j]? = some b) : i = j := by
  obtain ⟨inside, -⟩ := List.getElem?_eq_some_iff.mp left
  exact (List.getElem?_inj inside nodup).mp (left.trans right.symm)

theorem placed (supplied : Supplied d ino supply after next) (owned : Owned d ino)
    (nodup : supply.Nodup)
    (free : ∀ b ∈ supply, 352 ≤ b ∧ b < 32768 ∧ marked d b = false) : Placed after next := by
  have old_ne : ∀ {n i : Nat}, n < fileBlocks ino → supply[i]? ≠ some (dataRef d ino n) := by
    intro n i kept here
    obtain ⟨-, -, clear⟩ := free _ (List.mem_of_getElem? here)
    have marks := owned.marks _ (dataRef_mem kept)
    rw [clear] at marks
    cases marks
  have direct : ∀ {n : Nat}, fileBlocks ino ≤ n → n < fileBlocks next → fileBlocks ino ≤ 32 := by
    intro n lower upper
    rcases supplied.oneSide with few | few <;> omega
  refine ⟨supplied.size_le, ?_, ?_, ?_⟩
  · intro b member
    rcases supplied.origin member with old | new
    · exact owned.inData b old
    · obtain ⟨lower, upper, -⟩ := free b new
      exact ⟨lower, upper⟩
  · intro m n belowM belowN same
    by_cases oldM : m < fileBlocks ino
    · by_cases oldN : n < fileBlocks ino
      · rw [supplied.old m oldM belowM, supplied.old n oldN belowN] at same
        exact owned.injective m n oldM oldN same
      · have here := supplied.new n (by omega) belowN
        rw [← same, supplied.old m oldM belowM] at here
        exact absurd here (old_ne oldM)
    · by_cases oldN : n < fileBlocks ino
      · have here := supplied.new m (by omega) belowM
        rw [same, supplied.old n oldN belowN] at here
        exact absurd here (old_ne oldN)
      · have here := supplied.new m (by omega) belowM
        rw [same] at here
        have slots := position nodup here (supplied.new n (by omega) belowN)
        have few := direct (Nat.not_lt.mp oldM) belowM
        unfold slot at slots
        split at slots <;> split at slots <;> omega
  · intro indirect n below same
    have index := supplied.index indirect
    rw [← same] at index
    by_cases kept : n < fileBlocks ino
    · rw [supplied.old n kept below] at index
      exact old_ne kept index
    · have slots := position nodup index (supplied.new n (by omega) below)
      have few := direct (Nat.not_lt.mp kept) below
      unfold slot at slots
      split at slots <;> omega

theorem congr {later : Disk} (supplied : Supplied d ino supply after next)
    (same : 32 < fileBlocks next → later.blocks next.indexBlock = after.blocks next.indexBlock) :
    Supplied d ino supply later next := by
  have data : ∀ n, n < fileBlocks next → dataRef later next n = dataRef after next n :=
    fun _n below => dataRef_index_congr below same
  refine ⟨supplied.oneSide, supplied.size_le, ?_, ?_, supplied.index⟩
  · intro n kept below
    rw [data n below, supplied.old n kept below]
  · intro n lower below
    rw [data n below, supplied.new n lower below]

end Supplied

/-! ### The growing branch -/

theorem found_append {supply more : List Nat} {i b : Nat} (here : supply[i]? = some b) :
    (supply ++ more)[i]? = some b := by
  obtain ⟨inside, -⟩ := List.getElem?_eq_some_iff.mp here
  rw [List.getElem?_append_left inside, here]

structure Direct (ino : Inode) (originalBlock n : Nat) (supply : List Nat) (next : Inode) :
    Prop where
  length : supply.length = n
  same : next = { ino with blocks := next.blocks }
  old : ∀ k, k < originalBlock → next.blockAt k = ino.blockAt k
  new : ∀ k, originalBlock ≤ k → k < originalBlock + n →
    supply[k - originalBlock]? = some (next.blockAt k)

theorem Direct.next {ino next : Inode} {originalBlock n id : Nat} {supply : List Nat}
    (direct : Direct ino originalBlock n supply next) (inside : originalBlock + n < 33)
    (small : id < 32768) :
    ∃ after, next.setBlock (originalBlock + n) id = some after ∧
      Direct ino originalBlock (n + 1) (supply ++ [id]) after := by
  obtain ⟨blocks, set, addresses⟩ := next.setBlock_spec inside small
  refine ⟨_, set, ?_, ?_, ?_, ?_⟩
  · rw [List.length_append, List.length_singleton, direct.length]
  · rw [direct.same]
  · intro k below
    rw [addresses, if_neg (by omega)]
    exact direct.old k below
  · intro k lower upper
    rw [addresses]
    by_cases here : k = originalBlock + n
    · rw [if_pos here, here, Nat.add_sub_cancel_left, ← direct.length]
      exact List.getElem?_concat_length
    · rw [if_neg here]
      exact found_append (direct.new k lower (by omega))

theorem safe_allocDirect (apart : PutsApart d inum ino count) {originalBlock n : Nat}
    (few : originalBlock + n ≤ 32) (room : n ≤ need ino count h) (given : w.fresh h = []) :
    (sharing d inum ino count).Safe h
      (fun next later => Direct (ino h) originalBlock n (later.fresh h) next)
      (Stepwise.allocDirect (ino h) originalBlock n) w := by
  have stable : ∀ counter next (world later : World d ino count), Rely inum h none world later →
      Direct (ino h) originalBlock counter (world.fresh h) next →
      Direct (ino h) originalBlock counter (later.fresh h) next := by
    intro counter next world later relied direct
    rw [relied.fresh]
    exact direct
  unfold Stepwise.allocDirect
  apply Discipline.Safe.foldlM_range
    (fun counter next (later : World d ino count) =>
      Direct (ino h) originalBlock counter (later.fresh h) next) stable
  · rw [given]
    exact ⟨rfl, rfl, fun _ _ => rfl, fun k lower upper => by omega⟩
  · intro counter next world below direct
    apply Discipline.Safe.bind _
      (safe_allocBlock apart (rfl : world.fresh h = world.fresh h) (by rw [direct.length]; omega))
    intro id later gave
    obtain ⟨after, set, moved⟩ := direct.next (by omega) (given_onDisk apart gave)
    have word : originalBlock + counter < 2 ^ 32 := by omega
    rw [Nat.mod_eq_of_lt word, set]
    rw [← gave] at moved
    exact Discipline.Safe.ret moved (fun last relied => stable _ _ _ last relied)

structure Entries (supply : List Nat) (start n : Nat) (kept : List Nat) (entries : Memory) :
    Prop where
  extends_kept : kept <+: supply
  length : supply.length = start + n
  stored : ∀ k, k < n → supply[start + k]? = some (load32 entries (4 * k)).toNat

theorem Entries.next {supply kept : List Nat} {start n id : Nat} {entries : Memory}
    (filled : Entries supply start n kept entries) (inside : n < 128) (small : id < 32768) :
    ∃ after, setIndirectEntry entries n id = some after ∧
      Entries (supply ++ [id]) start (n + 1) kept after := by
  have inIndirect : n < nindirect := inside
  refine ⟨_, if_pos inIndirect, ?_, ?_, ?_⟩
  · exact filled.extends_kept.trans (List.prefix_append _ _)
  · rw [List.length_append, List.length_singleton, filled.length]
    omega
  · intro k below
    by_cases here : k = n
    · rw [here, load32_store32, UInt32.toNat_ofNat', Nat.mod_eq_of_lt (by omega), ← filled.length]
      exact List.getElem?_concat_length
    · rw [load32_store32_disjoint (by omega)]
      exact found_append (filled.stored k (by omega))

theorem safe_allocIndirect (apart : PutsApart d inum ino count) {limit : Nat} (buf : Memory)
    {kept : List Nat} (few : limit ≤ 128) (room : kept.length + limit ≤ need ino count h)
    (given : w.fresh h = kept) :
    (sharing d inum ino count).Safe h
      (fun entries later => Entries (later.fresh h) kept.length limit kept entries)
      (Stepwise.allocIndirect buf 0 limit) w := by
  have stable : ∀ counter entries (world later : World d ino count),
      Rely inum h none world later →
      Entries (world.fresh h) kept.length counter kept entries →
      Entries (later.fresh h) kept.length counter kept entries := by
    intro counter entries world later relied filled
    rw [relied.fresh]
    exact filled
  unfold Stepwise.allocIndirect
  rw [Nat.sub_zero, ← List.range_eq_range']
  apply Discipline.Safe.foldlM_range
    (fun counter entries (later : World d ino count) =>
      Entries (later.fresh h) kept.length counter kept entries) stable
  · rw [given]
    exact ⟨List.prefix_refl _, rfl, fun k below => absurd below (Nat.not_lt_zero k)⟩
  · intro counter entries world below filled
    apply Discipline.Safe.bind _
      (safe_allocBlock apart (rfl : world.fresh h = world.fresh h) (by rw [filled.length]; omega))
    intro id later gave
    obtain ⟨after, set, moved⟩ := filled.next (by omega) (given_onDisk apart gave)
    rw [set]
    rw [← gave] at moved
    exact Discipline.Safe.ret moved (fun last relied => stable _ _ _ last relied)

theorem Supplied.rely {pending : Option DiskOp} {later : World d ino count} {next : Inode}
    (supplied : Supplied d (ino h) (w.fresh h) w.disk next)
    (relied : Rely inum h pending w later) :
    Supplied d (ino h) (later.fresh h) later.disk next := by
  rw [relied.fresh]
  apply supplied.congr
  intro indirect
  exact relied.blocks _ (.inr (List.mem_of_getElem? (supplied.index indirect)))

/-- What the branches of `write_file` hand to the data transfer, for a file that
is to have `size` bytes. -/
structure Arranged (w : World d ino count) (h : Handler) (size : UInt32) (next : Inode) :
    Prop where
  same : next = { ino h with blocks := next.blocks }
  supplied : Supplied d (ino h) (w.fresh h) w.disk { next with size := size }

theorem Arranged.rely {size : UInt32} {pending : Option DiskOp} {later : World d ino count}
    {next : Inode} (arranged : Arranged w h size next) (relied : Rely inum h pending w later) :
    Arranged later h size next :=
  ⟨arranged.same, arranged.supplied.rely relied⟩

theorem Direct.arranged {size : UInt32} {next : Inode} {n : Nat}
    (direct : Direct (ino h) (fileBlocks (ino h)) n (w.fresh h) next)
    (counted : (size.toNat + 511) / 512 = count h) (all : fileBlocks (ino h) + n = count h)
    (small : count h ≤ 32) : Arranged w h size next := by
  have blocks : fileBlocks { next with size := size } = count h := by
    rw [fileBlocks_eq]
    exact counted
  refine ⟨direct.same, .inl (by omega), ?_, ?_, ?_, ?_⟩
  · change size.toNat ≤ 81920
    omega
  · intro n kept below
    rw [blocks] at below
    rw [dataRef_inode _ _ _ (by omega), direct.old n kept, dataRef_direct _ _ (by omega)]
  · intro n lower below
    rw [blocks] at below
    rw [dataRef_inode _ _ _ (by omega)]
    unfold slot
    rw [if_pos (by omega)]
    exact direct.new n lower (by omega)
  · intro indirect
    omega

theorem Direct.arranged_indirect {size : UInt32} {current : Inode} {entries : Memory}
    {kept : List Nat}
    (direct : Direct (ino h) (fileBlocks (ino h)) (33 - fileBlocks (ino h)) kept current)
    (filled : Entries (w.fresh h) kept.length (count h - 32) kept entries)
    (written : ∃ before : Disk, w.disk = before.writeBlock current.indexBlock entries)
    (onDisk : current.indexBlock < 32768) (old : fileBlocks (ino h) ≤ 32) (large : 32 < count h)
    (few : count h ≤ 160) (counted : (size.toNat + 511) / 512 = count h) :
    Arranged w h size current := by
  obtain ⟨before, written⟩ := written
  have blocks : fileBlocks { current with size := size } = count h := by
    rw [fileBlocks_eq]
    exact counted
  have found : ∀ {i b : Nat}, kept[i]? = some b → (w.fresh h)[i]? = some b := by
    intro i b here
    obtain ⟨more, whole⟩ := filled.extends_kept
    rw [← whole]
    exact found_append here
  refine ⟨direct.same, .inl old, ?_, ?_, ?_, ?_⟩
  · change size.toNat ≤ 81920
    omega
  · intro n below _inside
    rw [dataRef_inode _ _ _ (by omega), direct.old n below, dataRef_direct _ _ (by omega)]
  · intro n lower below
    rw [blocks] at below
    unfold slot
    by_cases inode : n < 32
    · rw [dataRef_inode _ _ _ inode, if_pos inode]
      exact found (direct.new n lower (by omega))
    · have entry := filled.stored (n - 32) (by omega)
      rw [direct.length, show 33 - fileBlocks (ino h) + (n - 32) = n + 1 - fileBlocks (ino h) by
        omega] at entry
      rw [written, if_neg inode, dataRef_written rfl onDisk (by omega)]
      exact entry
  · intro _indirect
    have index := direct.new 32 old (by omega)
    rw [← Inode.indexBlock_eq] at index
    exact found index

theorem safe_growFile (apart : PutsApart d inum ino count) (uninit : Uninit) {size : UInt32}
    (grows : fileBlocks (ino h) < count h) (counted : (size.toNat + 511) / 512 = count h)
    (given : w.fresh h = []) :
    (sharing d inum ino count).Safe h (fun next later => Arranged later h size next)
      (Stepwise.growFile uninit (ino h) (fileBlocks (ino h)) (count h)) w := by
  have few := apart.few h
  have old : fileBlocks (ino h) ≤ 32 := by
    rcases apart.oneSide h with few | few <;> omega
  have needed : need ino count h = allocCount (fileBlocks (ino h)) (count h) := if_pos grows
  unfold allocCount at needed
  unfold Stepwise.growFile
  by_cases small : count h ≤ 32
  · have limit : subUint32 (min (count h) ndirect) (fileBlocks (ino h)) =
        count h - fileBlocks (ino h) := by
      rw [ndirect_eq, Nat.min_eq_left small, subUint32_eq (by omega) (by omega)]
    rw [if_pos small] at needed
    simp only [limit]
    apply Discipline.Safe.bind _
      (safe_allocDirect apart (by omega) (Nat.le_of_eq needed.symm) given)
    intro next later direct
    have noIndexBlock : ¬ndirect < count h := Nat.not_lt.mpr small
    rw [if_neg noIndexBlock]
    exact Discipline.Safe.ret (direct.arranged counted (by omega) small)
      (fun last relied arranged => arranged.rely relied)
  · have limit : subUint32 (min (count h) ndirect) (fileBlocks (ino h)) =
        32 - fileBlocks (ino h) := by
      rw [ndirect_eq, Nat.min_eq_right (by omega), subUint32_eq (by omega) (by omega)]
    rw [if_neg small] at needed
    simp only [limit]
    apply Discipline.Safe.bind _ (safe_allocDirect apart (by omega) (by omega) given)
    intro next later direct
    have usesIndex : ndirect < count h := Nat.not_le.mp small
    have noIndex : fileBlocks (ino h) ≤ ndirect := old
    rw [if_pos usesIndex, if_pos noIndex]
    apply Discipline.Safe.bind _
      (safe_allocBlock apart (rfl : later.fresh h = later.fresh h) (by rw [direct.length]; omega))
    intro index world gave
    obtain ⟨current, set, whole⟩ := direct.next (by omega) (given_onDisk apart gave)
    have oneMore : 32 - fileBlocks (ino h) + 1 = 33 - fileBlocks (ino h) := by omega
    rw [← gave, oneMore] at whole
    have upToDirect : fileBlocks (ino h) + (32 - fileBlocks (ino h)) = ndirect := by
      rw [ndirect_eq]
      omega
    rw [upToDirect]
      at set
    rw [set]
    have length := whole.length
    have indirectFew : count h - ndirect ≤ 128 := by rw [ndirect_eq]; omega
    apply Discipline.Safe.bind _ (safe_allocIndirect apart uninit.indirectBlocks indirectFew
      (show (world.fresh h).length + (count h - ndirect) ≤ need ino count h by
        rw [ndirect_eq]; omega) rfl)
    intro entries last filled
    rw [Stepwise.writeBlock_bind]
    have address := whole.new 32 old (by omega)
    rw [← Inode.indexBlock_eq] at address
    have indexMember : current.indexBlock ∈ last.fresh h :=
      filled.extends_kept.subset (List.mem_of_getElem? address)
    obtain ⟨-, indexOnDisk, -⟩ := last.fresh_spec apart indexMember
    apply safe_write apart (.inr indexMember)
    intro final outside relied
    rw [← relied.fresh] at filled
    have arranged :
        Arranged (final.write apart current.indexBlock entries outside) h size current :=
      whole.arranged_indirect filled ⟨final.disk, rfl⟩ indexOnDisk old (by omega) few counted
    exact Discipline.Safe.ret arranged (fun _later reliedLater holds => holds.rely reliedLater)

end CseLab.FileSystem
