import CseLab.FileSystem.Store

/-! `put` when it cannot do what it is asked: a missing file and a buffer of too
many blocks leave the disk alone, but the allocator's 0 is taken for a block
number, and the file gets its new size all the same. -/

namespace CseLab.FileSystem

open ByteMemory Transition

/-! ### Allocations that may fail -/

theorem nthAlloc_cases (d : Disk) (index : Nat) :
    nthAlloc d index = 0 ∨ 352 ≤ nthAlloc d index := by
  unfold nthAlloc
  rcases allocBlock_spec (afterAllocs d index) with full | ⟨id, lower, -, -, allocated⟩
  · exact .inl (congrArg Prod.fst full)
  · exact .inr (lower.trans_eq (congrArg Prod.fst allocated).symm)

def Harmless (b : Nat) : Prop := b < 32768 ∧ (b = 0 ∨ 352 ≤ b)

theorem harmless_nthAlloc (d : Disk) (index : Nat) : Harmless (nthAlloc d index) :=
  ⟨allocBlock_lt _, nthAlloc_cases d index⟩

structure Spread (d : Disk) (ino : Inode) : Prop where
  data : ∀ n, n < fileBlocks ino → Harmless (dataRef d ino n)
  index : 32 < fileBlocks ino → Harmless ino.indexBlock
  index_ne : 32 < fileBlocks ino → ∀ n, n < 32 → dataRef d ino n ≠ ino.indexBlock

theorem Spread.congr {left right : Disk} {ino : Inode} (spread : Spread left ino)
    (same : 32 < fileBlocks ino → right.blocks ino.indexBlock = left.blocks ino.indexBlock) :
    Spread right ino := by
  have refs : ∀ n, n < fileBlocks ino → dataRef right ino n = dataRef left ino n :=
    fun _n below => dataRef_index_congr below same
  refine ⟨?_, spread.index, ?_⟩
  · intro n below
    rw [refs n below]
    exact spread.data n below
  · intro indirect n direct
    rw [refs n (by omega)]
    exact spread.index_ne indirect n direct

theorem Spread.writeData {d : Disk} {ino : Inode} (spread : Spread d ino)
    (few : fileBlocks ino ≤ 160) (uninit : Uninit) (buf : Memory) :
    ∃ after, writeData d uninit ino (fileBlocks ino) buf = some after ∧
      ∀ b, 0 < b → b < 352 → after.blocks b = d.blocks b := by
  let kept : Disk → Prop := fun after =>
    (32 < fileBlocks ino → after.blocks ino.indexBlock = d.blocks ino.indexBlock) ∧
      ∀ b, 0 < b → b < 352 → after.blocks b = d.blocks b
  have low : ∀ (after : Disk) n source, n < fileBlocks ino →
      (∀ b, 0 < b → b < 352 → after.blocks b = d.blocks b) →
      ∀ b, 0 < b → b < 352 →
        (after.writeBlock (dataRef d ino n) source).blocks b = d.blocks b := by
    intro after n source below same b positive upper
    obtain ⟨-, place⟩ := spread.data n below
    rw [Disk.writeBlock_other after source (by omega), same b positive upper]
  obtain ⟨middle, ranDirect, keptDirect⟩ : ∃ middle,
      writeDirect d ino buf (min (fileBlocks ino) 32) = some middle ∧ kept middle := by
    apply Loop.foldlM_range (fun _counter after => kept after)
    · exact ⟨fun _ => rfl, fun _b _positive _upper => rfl⟩
    · intro counter after below holds
      have inDirect : counter < 32 := by omega
      have here : dataRef d ino counter = ino.blockAt counter := if_pos inDirect
      rw [ino.block_eq (by omega), ← here]
      refine ⟨_, rfl, fun indirect => ?_, low after counter _ (by omega) holds.2⟩
      rw [Disk.writeBlock_other after _ (spread.index_ne indirect counter (by omega)).symm,
        holds.1 indirect]
  unfold FileSystem.writeData
  have limit : min (fileBlocks ino) ndirect = min (fileBlocks ino) 32 := rfl
  simp only [limit, ranDirect, Option.bind_eq_bind, Option.bind_some]
  by_cases direct : fileBlocks ino ≤ 32
  · have noIndex : fileBlocks ino ≤ ndirect := direct
    rw [if_pos noIndex]
    exact ⟨middle, rfl, keptDirect.2⟩
  · have hasIndex : ¬fileBlocks ino ≤ ndirect := direct
    rw [if_neg hasIndex, Nat.min_eq_right (by omega)]
    have index := spread.index (by omega)
    have entries : ∀ counter, counter < 128 →
        indirectEntry (middle.readBlock ino.indexBlock uninit.indirectBlocksAgain 0) counter =
          some (dataRef d ino (32 + counter)) := by
      intro counter below
      rw [indirectEntry_readBlock _ index.1 below, dataRef_of_indexBlock (keptDirect.1 (by omega))]
    apply Loop.foldlM_range (fun _counter (after : Disk) =>
      ∀ b, 0 < b → b < 352 → after.blocks b = d.blocks b)
    · exact keptDirect.2
    · intro counter after below holds
      rw [entries counter (by omega)]
      exact ⟨_, rfl, low after _ _ (by omega) holds⟩

private theorem growFile_index_ne {d : Disk} {ino : Inode}
    (oldData : ∀ n, n < fileBlocks ino → 352 ≤ ino.blockAt n ∧ ino.blockAt n < 32768 ∧
      marked d (ino.blockAt n) = true)
    (old : fileBlocks ino ≤ 32) (succeed : AllocsSucceed d (32 - fileBlocks ino)) {n : Nat}
    (direct : n < 32) :
    (if fileBlocks ino ≤ n then nthAlloc d (n - fileBlocks ino) else ino.blockAt n) ≠
      nthAlloc d (32 - fileBlocks ino) := by
  by_cases failed : nthAlloc d (32 - fileBlocks ino) = 0
  · rw [failed]
    split
    · exact succeed _ (by omega)
    · obtain ⟨lower, -⟩ := oldData n (by omega)
      omega
  · have also : AllocsSucceed d (32 - fileBlocks ino + 1) := by
      intro index below
      by_cases last : index = 32 - fileBlocks ino
      · rw [last]
        exact failed
      · exact succeed index (by omega)
    split
    · intro same
      have calls := nthAlloc_injective also (show n - fileBlocks ino < _ by omega)
        (Nat.lt_succ_self _) same
      omega
    · intro same
      obtain ⟨-, -, marks⟩ := oldData n (by omega)
      rw [same, marked_nthAlloc also (Nat.lt_succ_self _)] at marks
      cases marks

theorem growFile_spread {d : Disk} {ino : Inode} (uninit : Uninit) {blockCount : Nat}
    {size : UInt32} (owned : Owned d ino) (few : blockCount ≤ 160)
    (grows : fileBlocks ino < blockCount) (old : fileBlocks ino ≤ 32)
    (direct : 32 < blockCount → AllocsSucceed d (32 - fileBlocks ino))
    (counted : (size.toNat + 511) / 512 = blockCount) :
    ∃ after blocks,
      growFile d uninit ino (fileBlocks ino) blockCount =
        some (after, { ino with blocks := blocks }) ∧
      Spread after { ino with blocks := blocks, size := size } ∧
      ∀ b, 10 ≤ b → b < 352 → after.blocks b = d.blocks b := by
  have direct_old : ∀ disk : Disk, ∀ n, n < 32 → ∀ blocks,
      dataRef disk { ino with blocks := blocks, size := size } n =
        ({ ino with blocks := blocks } : Inode).blockAt n :=
    fun disk _n below blocks => dataRef_inode disk { ino with blocks := blocks } size below
  have oldData : ∀ n, n < fileBlocks ino → 352 ≤ ino.blockAt n ∧ ino.blockAt n < 32768 ∧
      marked d (ino.blockAt n) = true := by
    intro n below
    have member := dataRef_mem (d := d) below
    rw [dataRef_direct d ino (by omega)] at member
    exact ⟨(owned.inData _ member).1, (owned.inData _ member).2, owned.marks _ member⟩
  have count : ∀ blocks, fileBlocks { ino with blocks := blocks, size := size } = blockCount := by
    intro blocks
    rw [fileBlocks_eq]
    exact counted
  by_cases small : blockCount ≤ 32
  · obtain ⟨blocks, ran, addresses⟩ := growFile_within (d := d) uninit grows small
    refine ⟨_, blocks, ran, ⟨?_, ?_, ?_⟩, fun b lower _upper => afterAllocs_other d _ lower⟩
    · intro n below
      rw [count] at below
      rw [direct_old _ n (by omega), addresses]
      split
      · exact harmless_nthAlloc d _
      · obtain ⟨lower, upper, -⟩ := oldData n (by omega)
        exact ⟨upper, .inr lower⟩
    · intro indirect
      rw [count] at indirect
      omega
    · intro indirect
      rw [count] at indirect
      omega
  · obtain ⟨blocks, entries, ran, indexAddress, addresses, stored⟩ :=
      growFile_past (d := d) uninit old (by omega) few
    have succeed := direct (by omega)
    obtain ⟨indexOnDisk, indexPlace⟩ := harmless_nthAlloc d (32 - fileBlocks ino)
    refine ⟨_, blocks, ran, ⟨?_, fun _ => ?_, fun _ => ?_⟩, ?_⟩
    · intro n below
      rw [count] at below
      by_cases inode : n < 32
      · rw [direct_old _ n inode, addresses n inode]
        split
        · exact harmless_nthAlloc d _
        · obtain ⟨lower, upper, -⟩ := oldData n (by omega)
          exact ⟨upper, .inr lower⟩
      · have reference := @dataRef_written (afterAllocs d (blockCount + 1 - fileBlocks ino))
          { ino with blocks := blocks } size _ n entries indexAddress indexOnDisk (by omega)
        rw [reference, stored _ (by omega)]
        exact harmless_nthAlloc d _
    · change Harmless ({ ino with blocks := blocks } : Inode).indexBlock
      rw [indexAddress]
      exact ⟨indexOnDisk, indexPlace⟩
    · intro n inode
      rw [direct_old _ n inode, addresses n inode]
      change _ ≠ ({ ino with blocks := blocks } : Inode).indexBlock
      rw [indexAddress]
      exact growFile_index_ne oldData old succeed inode
    · intro b lower upper
      rw [Disk.writeBlock_other _ _ (by omega)]
      exact afterAllocs_other d _ lower

/-! ### A file that is to grow -/

theorem put_grows {d : Disk} {id : Nat} {ino : Inode} {buf : List UInt8} (memory : Uninit)
    (consistent : Consistent d) (found : getInode d (maskId id) = some ino)
    (notLast : maskId id ≠ inodeNum - 1) (short : buf.length ≤ 81920)
    (grows : fileBlocks ino < (buf.length + 511) / 512) (old : fileBlocks ino ≤ 32)
    (direct : 32 < (buf.length + 511) / 512 → AllocsSucceed d (32 - fileBlocks ino)) :
    ∃ after next, put d memory id buf = some after ∧ getInode after (maskId id) = some next ∧
      next.size.toNat = buf.length := by
  have inTable := getInode_lt found
  change maskId id ≠ 1023 at notLast
  have owned := consistent.owned _ ino ⟨found, fun isLast => absurd isLast notLast⟩
  have size : Int.bmod buf.length (2 ^ 32) = (buf.length : Int) := by
    apply Int.bmod_eq_of_le <;> omega
  have size32 : (UInt32.ofNat (toUint32 buf.length)).toNat = buf.length :=
    toNat_toUint32 (by omega)
  obtain ⟨middle, blocks, ran, spread, low⟩ :=
    growFile_spread memory owned (by omega) grows old direct (congrArg (fun n => (n + 511) / 512) size32)
  have count : fileBlocks { ino with blocks := blocks, size := UInt32.ofNat (toUint32 buf.length) } =
      (buf.length + 511) / 512 := by
    rw [fileBlocks_eq]
    exact congrArg (fun n => (n + 511) / 512) size32
  have spreadPut : Spread (putInode middle (maskId id)
      { ino with blocks := blocks, size := UInt32.ofNat (toUint32 buf.length) })
      { ino with blocks := blocks, size := UInt32.ofNat (toUint32 buf.length) } := by
    refine spread.congr (fun indirect => putInode_other middle _ ?_)
    obtain ⟨-, place⟩ := spread.index indirect
    omega
  obtain ⟨after, wrote, kept⟩ := spreadPut.writeData (by omega) memory (cStr buf memory)
  rw [count] at wrote
  refine ⟨after, { ino with blocks := blocks, size := UInt32.ofNat (toUint32 buf.length) },
    ?_, ?_, size32⟩
  · have original : ceil ino.size.toNat blockSize = fileBlocks ino := rfl
    unfold put writeFile
    rw [found, size]
    have int : buf.length < 2 ^ 31 := by omega
    simp only [toUint32_ceilInt int, original]
    have allowed : ¬maxfile < (buf.length + 511) / 512 := by rw [maxfile_eq]; omega
    rw [if_neg allowed,
      if_pos grows, ran]
    exact wrote
  · rw [getInode_congr (kept _ (by omega) (by omega)), getInode_putInode_self _ _ inTable]
    exact if_neg (getInode_type found)

/-- A file past its direct blocks leaves the array of addresses when it grows. -/
theorem put_overruns {d : Disk} {id : Nat} {ino : Inode} {buf : List UInt8} (memory : Uninit)
    (found : getInode d (maskId id) = some ino) (short : buf.length ≤ 81920)
    (grows : fileBlocks ino < (buf.length + 511) / 512) (past : 32 < fileBlocks ino) :
    put d memory id buf = none := by
  have size : Int.bmod buf.length (2 ^ 32) = (buf.length : Int) := by
    apply Int.bmod_eq_of_le <;> omega
  have original : ceil ino.size.toNat blockSize = fileBlocks ino := rfl
  have limit : subUint32 (min ((buf.length + 511) / 512) ndirect) (fileBlocks ino) =
      2 ^ 32 - (fileBlocks ino - 32) := by
    rw [ndirect_eq, Nat.min_eq_right (by omega)]
    unfold subUint32 toUint32
    omega
  have first : ∀ id, ino.setBlock (fileBlocks ino % 2 ^ 32) id = none := by
    intro id
    rw [Nat.mod_eq_of_lt (by omega)]
    have pastEntries : ¬fileBlocks ino < 33 := by omega
    exact dif_neg pastEntries
  have overrun : allocDirect d ino (fileBlocks ino) (2 ^ 32 - (fileBlocks ino - 32)) = none := by
    obtain ⟨count, more⟩ : ∃ count, 2 ^ 32 - (fileBlocks ino - 32) = count + 1 :=
      ⟨2 ^ 32 - (fileBlocks ino - 32) - 1, by omega⟩
    rw [more]
    unfold allocDirect
    rw [List.range_succ_eq_map, List.foldlM_cons]
    simp only [Nat.add_zero, first, Option.bind_eq_bind, Option.bind_none]
  unfold put writeFile
  rw [found, size]
  have int : buf.length < 2 ^ 31 := by omega
  simp only [toUint32_ceilInt int, original]
  have allowed : ¬maxfile < (buf.length + 511) / 512 := by rw [maxfile_eq]; omega
  rw [if_neg allowed, if_pos grows]
  unfold growFile
  simp only [limit, overrun, Option.bind_eq_bind, Option.bind_none]

/-! ### What a failed `put` changes -/

/-- No client and no allocation can tell the two disks apart. -/
def Unchanged (d after : Disk) : Prop :=
  (∀ id memory, get after memory id = get d memory id) ∧ (∀ id, getattr after id = getattr d id) ∧
    ∀ b, marked after b = marked d b

def putBlocks (buf : List UInt8) : Nat :=
  toUint32 (ceilInt (Int.bmod buf.length (2 ^ 32)) blockSize)

/-- The file exists and may have the blocks, but the allocator has not got them. -/
def Exhausted (d : Disk) (id : Nat) (buf : List UInt8) : Prop :=
  ∃ ino, getInode d (maskId id) = some ino ∧ fileBlocks ino < putBlocks buf ∧
    putBlocks buf ≤ maxfile ∧ ¬AllocsSucceed d (allocCount (fileBlocks ino) (putBlocks buf))

/-- The direct blocks of a file that is to get an index block can be allocated. -/
def DirectOk (d : Disk) (id : Nat) (buf : List UInt8) : Prop :=
  ∀ ino, getInode d (maskId id) = some ino → 32 < putBlocks buf →
    AllocsSucceed d (32 - fileBlocks ino)

theorem putBlocks_eq {buf : List UInt8} (short : buf.length < 2 ^ 31) :
    putBlocks buf = (buf.length + 511) / 512 := by
  have size : Int.bmod buf.length (2 ^ 32) = (buf.length : Int) := by
    apply Int.bmod_eq_of_le <;> omega
  unfold putBlocks
  rw [size, toUint32_ceilInt short]

private theorem size_changed {d after : Disk} {id : Nat} {ino next : Inode} {buf : List UInt8}
    (found : getInode d (maskId id) = some ino) (foundAfter : getInode after (maskId id) = some next)
    (sized : next.size.toNat = buf.length) (grows : fileBlocks ino < (buf.length + 511) / 512) :
    (getattr after id).size ≠ (getattr d id).size := by
  unfold getattr inodeAttr
  rw [found, foundAfter]
  dsimp only
  intro same
  rw [fileBlocks_eq, ← same, sized] at grows
  omega

private theorem put_exhausted {d : Disk} {id : Nat} {buf : List UInt8} (memory : Uninit)
    (consistent : Consistent d) (notLast : maskId id ≠ inodeNum - 1) (short : buf.length < 2 ^ 31)
    (direct : DirectOk d id buf) (exhausted : Exhausted d id buf) {after : Disk}
    (stored : put d memory id buf = some after) :
    (getattr after id).size ≠ (getattr d id).size := by
  obtain ⟨ino, found, grows, few, -⟩ := exhausted
  have directOk := direct ino found
  rw [putBlocks_eq short] at grows few directOk
  rw [maxfile_eq] at few
  by_cases old : fileBlocks ino ≤ 32
  · obtain ⟨other, next, ran, foundAfter, sized⟩ :=
      put_grows memory consistent found notLast (by omega) grows old directOk
    cases ran.symm.trans stored
    exact size_changed found foundAfter sized grows
  · rw [put_overruns memory found (by omega) grows (by omega)] at stored
    cases stored

/-! ### Filling the disk -/

def zeros32 : List UInt8 := List.replicate 16384 0

def fillFile (index : Nat) : List Request :=
  [.create .file .zero, .put (index + 2) zeros32 .zero]

/-- Files 2 to `k + 1` of thirty-two blocks each. -/
def fill (k : Nat) : List Request := (List.range k).flatMap fillFile

private structure Full (k : Nat) (d : Disk) : Prop where
  consistent : Consistent d
  taken : ∀ inum, 0 < inum → inum < k + 2 → ∃ ino, getInode d inum = some ino
  free : ∀ inum, k + 2 ≤ inum → inum < 1023 → getInode d inum = none
  shadow : marked d firstData = false → getInode d (inodeNum - 1) = none
  full : ∀ inum, 2 ≤ inum → inum < k + 2 →
    ∃ ino, getInode d inum = some ino ∧ fileBlocks ino = 32

private theorem Full.few {k : Nat} {d : Disk} (full : Full k d) (small : k ≤ 1014) : k ≤ 1013 := by
  have files : ∀ i : Fin k, ∃ ino, FileAt d (i.val + 2) ino ∧ fileBlocks ino = 32 := by
    intro i
    obtain ⟨ino, found, sized⟩ := full.full (i.val + 2) (by omega) (by omega)
    refine ⟨ino, ⟨found, fun isLast => ?_⟩, sized⟩
    change i.val + 2 = 1023 at isLast
    omega
  choose ino file sized using files
  have member : ∀ (i : Fin k) (n : Fin 32), dataRef d (ino i) n.val ∈ references d (ino i) :=
    fun i n => dataRef_mem (by rw [sized i]; exact n.isLt)
  have inData : ∀ (i : Fin k) (n : Fin 32),
      352 ≤ dataRef d (ino i) n.val ∧ dataRef d (ino i) n.val < 32768 :=
    fun i n => (full.consistent.owned _ _ (file i)).inData _ (member i n)
  let place : Fin k × Fin 32 → Fin 32416 := fun use =>
    ⟨dataRef d (ino use.1) use.2.val - 352, by have := inData use.1 use.2; omega⟩
  have injective : Function.Injective place := by
    rintro ⟨i, n⟩ ⟨j, m⟩ same
    have same : dataRef d (ino i) n.val = dataRef d (ino j) m.val := by
      have values := congrArg Fin.val same
      have left := inData i n
      have right := inData j m
      change dataRef d (ino i) n.val - 352 = dataRef d (ino j) m.val - 352 at values
      omega
    by_cases sameFile : i = j
    · subst sameFile
      have owned := full.consistent.owned _ _ (file i)
      have index := owned.injective n.val m.val (by rw [sized]; exact n.isLt)
        (by rw [sized]; exact m.isLt) same
      rw [Fin.ext index]
    · have apart := full.consistent.disjoint (i.val + 2) (j.val + 2) (ino i) (ino j)
        (fun equal => sameFile (Fin.ext (by omega))) (file i) (file j)
      exact absurd (same ▸ member j m) (apart _ (member i n))
  have counted := Fintype.card_le_of_injective place injective
  rw [Fintype.card_prod, Fintype.card_fin, Fintype.card_fin, Fintype.card_fin] at counted
  omega

/-- Files 1 to `k + 2`, the last of them empty. -/
private structure Ready (k : Nat) (d : Disk) : Prop where
  consistent : Consistent d
  empty : ∃ ino, getInode d (k + 2) = some ino ∧ ino.size = 0
  taken : ∀ inum, 0 < inum → inum < k + 2 → ∃ ino, getInode d inum = some ino
  free : ∀ inum, k + 3 ≤ inum → inum < 1023 → getInode d inum = none
  shadow : marked d firstData = false → getInode d (inodeNum - 1) = none
  full : ∀ inum, 2 ≤ inum → inum < k + 2 →
    ∃ ino, getInode d inum = some ino ∧ fileBlocks ino = 32

private theorem Full.createOk {k : Nat} {d : Disk} (full : Full k d) (small : k ≤ 1013) :
    CreateOk d := by
  intro _ taken
  refine absurd (full.free (k + 2) le_rfl (by omega)) (taken (k + 2) (by omega) ?_)
  change k + 2 < 1023
  omega

private theorem Full.create {k : Nat} {d : Disk} (full : Full k d) (small : k ≤ 1013) :
    Ready k (create d .zero .file).2 := by
  have fresh := full.free (k + 2) le_rfl (by omega)
  obtain ⟨inum, positive, inTable, free, smaller, allocated⟩ :
      ∃ inum, 0 < inum ∧ inum < 1024 ∧ getInode d inum = none ∧
        (∀ other, 0 < other → other < inum → getInode d other ≠ none) ∧
        FileSystem.create d .zero .file =
          (inum, putInode d inum { Uninit.zero.ino with type := FileType.file.code.toUInt16, size := 0 }) := by
    have search : ((List.range' 1 (sb.ninodes - 1)).find?
        (fun inum => (getInode d inum).isNone)).isSome := by
      rw [List.find?_isSome]
      refine ⟨k + 2, ?_, by rw [fresh]; rfl⟩
      rw [List.mem_range'_1]
      change 1 ≤ k + 2 ∧ k + 2 < 1 + (1024 - 1)
      omega
    rcases allocInode_spec d .zero FileType.file.code with none | found
    · obtain ⟨inum, chosen⟩ := Option.isSome_iff_exists.mp search
      unfold allocInode at none
      rw [chosen] at none
      have zero := (Prod.mk.inj none).1
      have member := List.mem_of_find?_eq_some chosen
      rw [zero, List.mem_range'_1] at member
      omega
    · exact found
  have same : inum = k + 2 := by
    have upper : inum ≤ k + 2 := by
      by_contra later
      exact smaller (k + 2) (by omega) (by omega) fresh
    by_contra different
    obtain ⟨ino, found⟩ := full.taken inum positive (by omega)
    cases found.symm.trans free
  subst same
  have others : ∀ other, other ≠ k + 2 →
      getInode (FileSystem.create d .zero .file).2 other = getInode d other := by
    intro other different
    rw [allocated]
    exact getInode_putInode_other d _ (by omega) different
  have mark : marked (FileSystem.create d .zero .file).2 firstData = marked d firstData := by
    rw [allocated]
    exact marked_congr (putInode_other d _ (by rw [bblock_eq, firstData_eq]; omega))
  constructor
  · rcases create_spec full.consistent .zero .file (full.createOk small) with none | ⟨_, after, ran, created⟩
    · rw [none]
      exact full.consistent
    · rw [ran]
      exact created.consistent
  · rw [allocated]
    refine ⟨_, (getInode_putInode_self d _ (by omega)).trans (if_neg ?_), rfl⟩
    decide
  · intro other lower upper
    rw [others other (by omega)]
    exact full.taken other lower upper
  · intro other lower upper
    rw [others other (by omega)]
    exact full.free other (by omega) upper
  · intro clear
    rw [mark] at clear
    rw [others _ (by change 1023 ≠ k + 2; omega)]
    exact full.shadow clear
  · intro other lower upper
    rw [others other (by omega)]
    exact full.full other lower upper

private theorem zeros32_length : zeros32.length = 16384 := List.length_replicate

private theorem zeros32_blocks : putBlocks zeros32 = 32 := by
  rw [putBlocks_eq (by rw [zeros32_length]; decide), zeros32_length]

private theorem zeros32_whole : zeros32.length % 2 ^ 32 = 16384 := by
  rw [zeros32_length]
  rfl

private theorem zeros32_size : Int.bmod zeros32.length (2 ^ 32) = ((16384 : Nat) : Int) := by
  rw [zeros32_length]
  rfl

private theorem Ready.writeOk {k : Nat} {d : Disk} (ready : Ready k d) (small : k ≤ 1013)
    (succeed : AllocsSucceed d 32) {ino : Inode} (empty : ino.size = 0) :
    WriteOk d (k + 2) ino ((zeros32.length % 2 ^ 32 + 511) / 512) := by
  have zero : fileBlocks ino = 0 := by
    rw [fileBlocks_eq, empty]
    rfl
  have notLast : k + 2 ≠ inodeNum - 1 := by
    change k + 2 ≠ 1023
    omega
  rw [zeros32_whole]
  refine ⟨⟨.inl (by omega), fun _ => ?_, fun isLast => absurd isLast notLast⟩,
    fun isLast => absurd isLast notLast, fun _ => ready.shadow, ?_⟩
  · rw [zero]
    exact succeed
  · intro freed member
    unfold freedByPut at member
    rw [if_pos (by omega)] at member
    cases member

private theorem Ready.putOk {k : Nat} {d : Disk} (ready : Ready k d) (small : k ≤ 1013)
    (succeed : AllocsSucceed d 32) : StepOk d (.put (k + 2) zeros32 .zero) := by
  have masked : maskId (k + 2) = k + 2 := Nat.mod_eq_of_lt (by omega)
  obtain ⟨known, there, empty⟩ := ready.empty
  intro ino found _fits
  rw [masked] at found ⊢
  cases there.symm.trans found
  exact ⟨by rw [zeros32_size]; omega, ready.writeOk small succeed empty⟩

private theorem Ready.put {k : Nat} {d : Disk} (ready : Ready k d) (small : k ≤ 1013)
    (succeed : AllocsSucceed d 32) :
    ∃ after, put d .zero (k + 2) zeros32 = some after ∧ Full (k + 1) after := by
  obtain ⟨ino, found, empty⟩ := ready.empty
  have masked : maskId (k + 2) = k + 2 := Nat.mod_eq_of_lt (by omega)
  have whole := zeros32_whole
  have notLast : ∀ other, other < 1023 → other = inodeNum - 1 → marked d firstData = false := by
    intro other below isLast
    change other = 1023 at isLast
    omega
  have file : FileAt d (maskId (k + 2)) ino := by
    rw [masked]
    exact ⟨found, notLast _ (by omega)⟩
  have ok : WriteOk d (maskId (k + 2)) ino ((zeros32.length % 2 ^ 32 + 511) / 512) := by
    rw [masked]
    exact ready.writeOk small succeed empty
  obtain ⟨after, next, ran, stored⟩ := put_spec .zero ready.consistent file
    (by rw [zeros32_size]; omega) (by omega) ok
  have untouched := stored.untouched
  rw [masked] at untouched
  have before : ∀ other otherIno, other ≠ k + 2 → other < 1023 →
      (getInode after other = some otherIno ↔ getInode d other = some otherIno) := by
    intro other otherIno different below
    have files := untouched.files other otherIno different
    constructor
    · intro here
      refine (files.mp ⟨here, fun isLast => ?_⟩).found
      change other = 1023 at isLast
      omega
    · intro here
      exact (files.mpr ⟨here, notLast other below⟩).found
  refine ⟨after, ran, stored.consistent, ?_, ?_, ?_, ?_⟩
  · intro other lower upper
    by_cases here : other = k + 2
    · subst here
      exact ⟨next, masked ▸ stored.file.found⟩
    · obtain ⟨otherIno, was⟩ := ready.taken other lower (by omega)
      exact ⟨otherIno, (before other otherIno here (by omega)).mpr was⟩
  · intro other lower upper
    cases here : getInode after other with
    | none => rfl
    | some otherIno =>
        have was := (before other otherIno (by omega) upper).mp here
        rw [ready.free other (by omega) upper] at was
        cases was
  · intro clear
    cases here : getInode after (inodeNum - 1) with
    | none => rfl
    | some lastIno =>
        have was := (untouched.files (inodeNum - 1) lastIno (by change 1023 ≠ k + 2; omega)).mp
          ⟨here, fun _ => clear⟩
        have none := ready.shadow (was.last rfl)
        rw [was.found] at none
        cases none
  · intro other lower upper
    by_cases here : other = k + 2
    · subst here
      refine ⟨next, masked ▸ stored.file.found, ?_⟩
      rw [fileBlocks_eq, stored.size_eq, whole, List.length_take, zeros32_length]
      rfl
    · obtain ⟨otherIno, was, sized⟩ := ready.full other lower (by omega)
      exact ⟨otherIno, (before other otherIno here (by omega)).mpr was, sized⟩

private theorem Full.start : Full 0 (construct .zero) := by
  have others : ∀ inum, inum ≠ 1 → getInode (construct .zero) inum = none := by
    intro inum different
    rcases allocInode_spec Disk.fresh .zero FileType.dir.code with none |
      ⟨other, positive, inTable, -, smaller, allocated⟩
    · unfold construct
      rw [none]
      exact getInode_fresh inum
    · have first : other = 1 := by
        by_contra later
        exact smaller 1 Nat.one_pos (by omega) (getInode_fresh 1)
      subst first
      unfold construct
      rw [allocated]
      exact (getInode_putInode_other Disk.fresh _ inTable different).trans (getInode_fresh inum)
  constructor
  · exact construct_consistent .zero
  · intro inum lower upper
    have root : (getInode (construct .zero) 1).isSome := by decide
    have isRoot : inum = 1 := by omega
    rw [isRoot]
    exact Option.isSome_iff_exists.mp root
  · exact fun inum lower _ => others inum (by omega)
  · exact fun _ => others _ (by decide)
  · intro inum lower upper
    omega

private theorem fill_succ (k : Nat) : fill (k + 1) = fill k ++ fillFile k := by
  unfold fill
  rw [List.range_succ, List.flatMap_append, List.flatMap_singleton]

private theorem fill_cases (k : Nat) (small : k ≤ 1014) :
    (∃ d, Guarded serve StepOk (construct .zero) (fill k) ∧
        run serve (construct .zero) (fill k) = some d ∧ Full k d) ∨
      ∃ j d, j < k ∧ Guarded serve StepOk (construct .zero) (fill j ++ [.create .file .zero]) ∧
        run serve (construct .zero) (fill j ++ [.create .file .zero]) = some d ∧
        Ready j d ∧ ¬AllocsSucceed d 32 := by
  induction k with
  | zero => exact .inl ⟨_, trivial, rfl, Full.start⟩
  | succ k ih =>
      rcases ih (by omega) with ⟨d, guarded, ran, full⟩ | ⟨j, d, below, found⟩
      · have few := full.few (by omega)
        have ready := full.create few
        have created : run serve (construct .zero) (fill k ++ [.create .file .zero]) =
            some (create d .zero .file).2 := by
          rw [run_append, ran]
          rfl
        have guardedCreate :
            Guarded serve StepOk (construct .zero) (fill k ++ [.create .file .zero]) := by
          refine guarded.append fun middle same => ?_
          cases ran.symm.trans same
          exact ⟨full.createOk few, fun _next _taken => trivial⟩
        by_cases succeed : AllocsSucceed (create d .zero .file).2 32
        · obtain ⟨after, stored, next⟩ := ready.put few succeed
          have parts : fill (k + 1) =
              (fill k ++ [.create .file .zero]) ++ [.put (k + 2) zeros32 .zero] := by
            rw [fill_succ, List.append_assoc]
            rfl
          refine .inl ⟨after, ?_, ?_, next⟩
          · rw [parts]
            refine guardedCreate.append fun middle same => ?_
            cases created.symm.trans same
            exact ⟨ready.putOk few succeed, fun _next _taken => trivial⟩
          · rw [parts, run_append, created, Option.bind_some, run_cons]
            change (FileSystem.put _ .zero (k + 2) zeros32).bind _ = _
            rw [stored]
            rfl
        · exact .inr ⟨k, _, Nat.lt_succ_self k, guardedCreate, created, ready, succeed⟩
      · exact .inr ⟨j, d, by omega, found⟩

private theorem fill_exhausts : ∃ k d, k < 1014 ∧
    Guarded serve StepOk (construct .zero) (fill k ++ [.create .file .zero]) ∧
    run serve (construct .zero) (fill k ++ [.create .file .zero]) = some d ∧ Ready k d ∧
    Exhausted d (k + 2) zeros32 := by
  rcases fill_cases 1014 le_rfl with ⟨d, -, -, full⟩ | ⟨k, d, below, guarded, ran, ready, failed⟩
  · have few := full.few le_rfl
    omega
  obtain ⟨ino, found, empty⟩ := ready.empty
  have masked : maskId (k + 2) = k + 2 := Nat.mod_eq_of_lt (by omega)
  have zero : fileBlocks ino = 0 := by
    rw [fileBlocks_eq, empty]
    rfl
  rw [← masked] at found
  refine ⟨k, d, below, guarded, ran, ready, ino, found, ?_, ?_, ?_⟩
  · rw [zero, zeros32_blocks]
    decide
  · rw [zeros32_blocks]
    decide
  · rw [zero, zeros32_blocks]
    exact failed

/-! ### Runs -/

/-- On every disk the first two ways to fail change nothing; along the runs of
trusted steps they are the only ones that change nothing. -/
theorem failed_put_unchanged (d : Disk) (id : Nat) (buf : List UInt8) (memory : Uninit) :
    (getInode d (maskId id) = none ∨ maxfile < putBlocks buf →
      ∃ after, put d memory id buf = some after ∧ Unchanged d after) ∧
    ∀ uninit requests, Guarded serve StepOk (construct uninit) requests →
      run serve (construct uninit) requests = some d →
      maskId id ≠ inodeNum - 1 → buf.length < 2 ^ 31 → DirectOk d id buf →
      getInode d (maskId id) = none ∨ maxfile < putBlocks buf ∨ Exhausted d id buf →
      ((∃ after, put d memory id buf = some after ∧ Unchanged d after) ↔
        getInode d (maskId id) = none ∨ maxfile < putBlocks buf) := by
  have same : getInode d (maskId id) = none ∨ maxfile < putBlocks buf →
      ∃ after, put d memory id buf = some after ∧ Unchanged d after := by
    intro refused
    refine ⟨d, ?_, fun _ _ => rfl, fun _ => rfl, fun _ => rfl⟩
    rcases refused with missing | large
    · exact put_missing memory buf missing
    · exact put_refused memory large
  refine ⟨same, ?_⟩
  intro uninit requests guarded ran notLast short direct fails
  refine ⟨?_, same⟩
  rintro ⟨after, stored, -, attributes, -⟩
  rcases fails with missing | large | exhausted
  · exact .inl missing
  · exact .inr large
  · exact absurd (congrArg Attr.size (attributes id))
      (put_exhausted memory (run_consistent guarded ran) notLast short direct exhausted stored)

/-- A new file that is to have 161 blocks stays empty; one that exhausts the disk does not. -/
theorem failed_put_unchanged_filled :
    (∃ d, run serve (construct .zero) [.create .file .zero] = some d ∧
      ∃ after, put d .zero 2 (List.replicate 81921 0) = some after ∧ Unchanged d after) ∧
    ∃ k d, run serve (construct .zero) (fill k ++ [.create .file .zero]) = some d ∧
      ¬∃ after, put d .zero (k + 2) zeros32 = some after ∧ Unchanged d after := by
  constructor
  · have large : maxfile < putBlocks (List.replicate 81921 0) := by
      rw [putBlocks_eq (by rw [List.length_replicate]; decide), List.length_replicate]
      decide
    have full := Full.start
    have guarded : Guarded serve StepOk (construct .zero) [.create .file .zero] :=
      ⟨full.createOk (by omega), fun _next _taken => trivial⟩
    refine ⟨_, rfl, ((failed_put_unchanged _ 2 _ .zero).2 .zero _ guarded rfl (by decide) ?_ ?_
      (.inr (.inl large))).mpr (.inr large)⟩
    · rw [List.length_replicate]
      decide
    · intro ino _found _many
      exact allocsSucceed_fresh (fun _b => clear_low ((allocInode_low _ .zero _ (by omega)).trans
        (allocInode_low _ .zero _ (by omega)))) (by omega)
  · obtain ⟨k, d, below, guarded, ran, ready, exhausted⟩ := fill_exhausts
    have masked : maskId (k + 2) = k + 2 := Nat.mod_eq_of_lt (by omega)
    refine ⟨k, d, ran, fun unchanged => ?_⟩
    rcases ((failed_put_unchanged d (k + 2) zeros32 .zero).2 .zero _ guarded ran
      (by rw [masked]; change k + 2 ≠ 1023; omega) (by rw [zeros32_length]; decide)
      (fun _ino _found many => absurd many (by rw [zeros32_blocks]; decide))
      (.inr (.inr exhausted))).mp unchanged with missing | large
    · obtain ⟨ino, found, -⟩ := exhausted
      cases missing.symm.trans found
    · rw [zeros32_blocks] at large
      exact absurd large (by decide)

/-- The file that the allocator runs out of blocks for gets the size of 32 blocks as well. -/
theorem exhausted_put_changes : ∃ k d after, k < 1014 ∧
    run serve (construct .zero) (fill k ++ [.create .file .zero]) = some d ∧
    Exhausted d (k + 2) zeros32 ∧ put d .zero (k + 2) zeros32 = some after ∧
    (getattr d (k + 2)).size = 0 ∧ (getattr after (k + 2)).size = 16384 := by
  obtain ⟨k, d, below, -, ran, ready, exhausted⟩ := fill_exhausts
  obtain ⟨ino, found, empty⟩ := ready.empty
  have masked : maskId (k + 2) = k + 2 := Nat.mod_eq_of_lt (by omega)
  have zero : fileBlocks ino = 0 := by
    rw [fileBlocks_eq, empty]
    rfl
  rw [← masked] at found
  obtain ⟨after, next, stored, foundAfter, sized⟩ := put_grows .zero ready.consistent found
    (by rw [masked]; change k + 2 ≠ 1023; omega) (by rw [zeros32_length]; decide)
    (by rw [zeros32_length, zero]; decide) (by omega)
    (fun many => absurd many (by rw [zeros32_length]; decide))
  refine ⟨k, d, after, below, ran, exhausted, stored, ?_, ?_⟩
  · unfold getattr inodeAttr
    rw [found]
    exact empty
  · unfold getattr inodeAttr
    rw [foundAfter]
    apply UInt32.toNat_inj.mp
    rw [zeros32_length] at sized
    exact sized

end CseLab.FileSystem
