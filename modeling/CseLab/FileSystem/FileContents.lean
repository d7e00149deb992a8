import CseLab.FileSystem.InodeTable
import CseLab.FileSystem.ExtentServer
import CseLab.Lib.Loop

/-! The blocks a file refers to and the bytes they hold, and `read_file` and
`get` as functions of those bytes. -/

namespace CseLab.FileSystem

open ByteMemory

def fileBlocks (ino : Inode) : Nat := ceil ino.size.toNat blockSize

def Inode.blockAt (ino : Inode) (n : Nat) : Nat := (ino.blocks[n]?.getD 0).toNat

def dataRef (d : Disk) (ino : Inode) (n : Nat) : Nat :=
  if n < ndirect then ino.blockAt n
  else (load32 (d.blocks ino.indexBlock) (4 * (n - ndirect))).toNat

/-- The blocks a file has in use: its index block, when it has one, and its data blocks. -/
def references (d : Disk) (ino : Inode) : List Nat :=
  (if ndirect < fileBlocks ino then [ino.indexBlock] else []) ++
    (List.range (fileBlocks ino)).map (dataRef d ino)

def contents (d : Disk) (ino : Inode) : List UInt8 :=
  (List.range ino.size.toNat).map
    (fun k => d.blocks (dataRef d ino (k / blockSize)) (k % blockSize))

/-! ### Counting blocks -/

theorem ceil_eq (a : Nat) : ceil a blockSize = (a + 511) / 512 := by
  unfold ceil
  change (if a % 512 = 0 then a / 512 else a / 512 + 1) = _
  split <;> omega

theorem fileBlocks_eq (ino : Inode) : fileBlocks ino = (ino.size.toNat + 511) / 512 :=
  ceil_eq _

theorem maxfile_eq : maxfile = 160 := rfl

theorem nindirect_eq : nindirect = 128 := rfl

/-! ### References -/

theorem Inode.block_eq (ino : Inode) {n : Nat} (below : n < 33) :
    ino.block n = some (ino.blockAt n) := by
  unfold Inode.block Inode.blockAt
  have entry : n < ndirect + 1 := below
  rw [Vector.getElem?_eq_getElem entry]
  rfl

theorem Inode.indexBlock_eq (ino : Inode) : ino.indexBlock = ino.blockAt 32 := by
  unfold Inode.indexBlock Inode.blockAt
  have entry : 32 < ndirect + 1 := by decide
  rw [Vector.getElem?_eq_getElem entry]
  rfl

theorem mem_references {d : Disk} {ino : Inode} {b : Nat} :
    b ∈ references d ino ↔
      (32 < fileBlocks ino ∧ b = ino.indexBlock) ∨
        ∃ n, n < fileBlocks ino ∧ dataRef d ino n = b := by
  unfold references
  rw [List.mem_append, List.mem_map, ndirect_eq]
  simp only [List.mem_range]
  by_cases indirect : 32 < fileBlocks ino
  · simp [indirect]
  · simp [indirect]

theorem dataRef_mem {d : Disk} {ino : Inode} {n : Nat} (below : n < fileBlocks ino) :
    dataRef d ino n ∈ references d ino :=
  mem_references.mpr (Or.inr ⟨n, below, rfl⟩)

theorem indexBlock_mem {d : Disk} {ino : Inode} (indirect : 32 < fileBlocks ino) :
    ino.indexBlock ∈ references d ino :=
  mem_references.mpr (Or.inl ⟨indirect, rfl⟩)

theorem dataRef_direct (d : Disk) (ino : Inode) {n : Nat} (direct : n < 32) :
    dataRef d ino n = ino.blockAt n :=
  if_pos direct

theorem dataRef_indirect (d : Disk) (ino : Inode) {n : Nat} (past : 32 ≤ n) :
    dataRef d ino n = (load32 (d.blocks ino.indexBlock) (4 * (n - 32))).toNat :=
  if_neg (Nat.not_lt.mpr past)

theorem dataRef_inode (d : Disk) (ino : Inode) (size : UInt32) {n : Nat} (direct : n < 32) :
    dataRef d { ino with size := size } n = ino.blockAt n :=
  dataRef_direct d _ direct

theorem dataRef_of_indexBlock {left right : Disk} {ino : Inode}
    (same : right.blocks ino.indexBlock = left.blocks ino.indexBlock) (n : Nat) :
    dataRef right ino n = dataRef left ino n := by
  unfold dataRef
  rw [same]

theorem dataRef_index_congr {left right : Disk} {ino : Inode} {n : Nat}
    (below : n < fileBlocks ino)
    (same : 32 < fileBlocks ino → right.blocks ino.indexBlock = left.blocks ino.indexBlock) :
    dataRef right ino n = dataRef left ino n := by
  by_cases direct : n < 32
  · rw [dataRef_direct left ino direct, dataRef_direct right ino direct]
  · exact dataRef_of_indexBlock (same (by omega)) n

theorem dataRef_congr {left right : Disk} {ino : Inode} {n : Nat}
    (below : n < fileBlocks ino)
    (same : ∀ b ∈ references left ino, right.blocks b = left.blocks b) :
    dataRef right ino n = dataRef left ino n :=
  dataRef_index_congr below (fun indirect => same _ (indexBlock_mem indirect))

theorem references_congr {left right : Disk} {ino : Inode}
    (same : ∀ b ∈ references left ino, right.blocks b = left.blocks b) :
    references right ino = references left ino := by
  unfold references
  congr 1
  apply List.map_congr_left
  intro n member
  exact dataRef_congr (List.mem_range.mp member) same

theorem contents_congr {left right : Disk} {ino : Inode}
    (same : ∀ b ∈ references left ino, right.blocks b = left.blocks b) :
    contents right ino = contents left ino := by
  unfold contents
  apply List.map_congr_left
  intro k member
  have below : k / blockSize < fileBlocks ino := by
    rw [List.mem_range] at member
    rw [fileBlocks_eq]
    change k / 512 < _
    omega
  rw [dataRef_congr below same, same _ (dataRef_mem below)]

theorem contents_length (d : Disk) (ino : Inode) : (contents d ino).length = ino.size.toNat := by
  unfold contents
  rw [List.length_map, List.length_range]

/-! ### Reading -/

/-- What `read_file` needs of an inode to stay inside its arrays and on the disk. -/
structure Readable (d : Disk) (ino : Inode) : Prop where
  size_le : ino.size.toNat ≤ 81920
  onDisk : ∀ b ∈ references d ino, b < 32768

theorem Readable.fileBlocks_le {d : Disk} {ino : Inode} (readable : Readable d ino) :
    fileBlocks ino ≤ 160 := by
  have bound := readable.size_le
  rw [fileBlocks_eq]
  omega

private def Filled (d : Disk) (ino : Inode) (count : Nat) (buf : Memory) : Prop :=
  ∀ k, k < 512 * count → buf k = d.blocks (dataRef d ino (k / 512)) (k % 512)

private theorem filled_next {d : Disk} {ino : Inode} {count : Nat} {buf : Memory}
    (filled : Filled d ino count buf) (onDisk : dataRef d ino count < 32768) :
    Filled d ino (count + 1) (d.readBlock (dataRef d ino count) buf (512 * count)) := by
  intro k below
  rw [Disk.readBlock_apply]
  by_cases here : 512 * count ≤ k
  · have block : k / 512 = count := by omega
    rw [if_pos ⟨onDisk, here, by omega⟩, block]
    congr 1
    omega
  · rw [if_neg (fun all => here all.2.1)]
    exact filled k (by omega)

private theorem readDirect_spec {d : Disk} {ino : Inode} (readable : Readable d ino)
    (bufOut : Memory) (limit : Nat) (direct : limit ≤ 32) (few : limit ≤ fileBlocks ino) :
    ∃ filled, readDirect d ino bufOut limit = some filled ∧ Filled d ino limit filled := by
  apply Loop.foldlM_range (Filled d ino)
  · intro k below
    omega
  · intro counter buf below filled
    rw [ino.block_eq (by omega), ← dataRef_direct d ino (by omega)]
    exact ⟨_, rfl, filled_next filled (readable.onDisk _ (dataRef_mem (by omega)))⟩

theorem indirectEntry_readBlock {d : Disk} {ino : Inode} (buf : Memory) {counter : Nat}
    (indexOnDisk : ino.indexBlock < 32768) (below : counter < 128) :
    indirectEntry (d.readBlock ino.indexBlock buf 0) counter =
      some (dataRef d ino (32 + counter)) := by
  unfold indirectEntry dataRef
  rw [nindirect_eq, ndirect_eq, if_pos below, if_neg (by omega), Nat.add_sub_cancel_left]
  congr 2
  apply load32_congr
  intro address lower upper
  rw [Disk.readBlock_apply, if_pos ⟨indexOnDisk, by omega, by omega⟩, Nat.sub_zero]

private theorem readIndirect_spec {d : Disk} {ino : Inode} (readable : Readable d ino)
    (uninit bufOut : Memory) (count : Nat) (few : 32 + count = fileBlocks ino) (any : 0 < count)
    (direct : Filled d ino 32 bufOut) :
    ∃ filled, readIndirect d (d.readBlock ino.indexBlock uninit 0) bufOut 32 count = some filled ∧
      Filled d ino (32 + count) filled := by
  have most := readable.fileBlocks_le
  have indexOnDisk := readable.onDisk _ (indexBlock_mem (by omega))
  apply Loop.foldlM_range (fun counter => Filled d ino (32 + counter))
  · exact direct
  · intro counter buf below filled
    have used : 32 + counter < fileBlocks ino := by omega
    rw [indirectEntry_readBlock uninit indexOnDisk (by omega)]
    exact ⟨_, rfl, filled_next filled (readable.onDisk _ (dataRef_mem used))⟩

theorem readFile_spec {d : Disk} {inum : Nat} {ino : Inode} (uninit : Uninit)
    (found : getInode d inum = some ino) (readable : Readable d ino) :
    ∃ buf, readFile d uninit inum = some (some (buf, (ino.size.toNat : Int))) ∧
      ∀ k, k < ino.size.toNat → buf k = d.blocks (dataRef d ino (k / 512)) (k % 512) := by
  have few := readable.fileBlocks_le
  have sizeLe := readable.size_le
  have blocks := fileBlocks_eq ino
  have size : Int.bmod ino.size.toNat (2 ^ 32) = (ino.size.toNat : Int) := by
    apply Int.bmod_eq_of_le <;> omega
  obtain ⟨bufDirect, ranDirect, filledDirect⟩ :=
    readDirect_spec readable uninit.bufOut (min (fileBlocks ino) 32) (by omega) (by omega)
  unfold readFile
  rw [found]
  change ∃ buf, ((readDirect d ino uninit.bufOut (min (fileBlocks ino) 32)).bind fun bufOut =>
    if fileBlocks ino ≤ ndirect then some (some (bufOut, Int.bmod ino.size.toNat (2 ^ 32)))
    else (readIndirect d (d.readBlock ino.indexBlock uninit.indirectBlocks 0) bufOut
      (min (fileBlocks ino) 32) (fileBlocks ino - min (fileBlocks ino) 32)).bind fun bufOut =>
        some (some (bufOut, Int.bmod ino.size.toNat (2 ^ 32)))) = _ ∧ _
  rw [ranDirect, Option.bind_some, size, ndirect_eq]
  by_cases direct : fileBlocks ino ≤ 32
  · rw [if_pos direct]
    exact ⟨bufDirect, rfl, fun k below => filledDirect k (by omega)⟩
  · rw [Nat.min_eq_right (by omega)] at filledDirect ⊢
    obtain ⟨bufOut, ran, filled⟩ :=
      readIndirect_spec readable uninit.indirectBlocks bufDirect (fileBlocks ino - 32)
        (by omega) (by omega) filledDirect
    rw [if_neg direct, ran]
    exact ⟨bufOut, rfl, fun k below => filled k (by omega)⟩

theorem get_spec {d : Disk} {id : Nat} {ino : Inode} (uninit : Uninit)
    (found : getInode d (maskId id) = some ino) (readable : Readable d ino) :
    get d uninit id = some (contents d ino) := by
  obtain ⟨buf, ran, filled⟩ := readFile_spec uninit found readable
  unfold get
  rw [ran]
  simp only [Option.bind_eq_bind, Option.bind_some]
  unfold contents
  by_cases empty : ino.size.toNat = 0
  · rw [empty]
    rfl
  · rw [if_neg (by omega), if_neg (by omega), Int.toNat_natCast]
    congr 1
    apply List.map_congr_left
    intro k member
    exact filled k (List.mem_range.mp member)

theorem get_missing {d : Disk} {id : Nat} (uninit : Uninit)
    (missing : getInode d (maskId id) = none) : get d uninit id = some [] := by
  unfold get readFile
  rw [missing]
  rfl

theorem readFile_blocks {d : Disk} {uninit : Uninit} {inum : Nat} {bufOut : Memory} {size : Int}
    (read : readFile d uninit inum = some (some (bufOut, size))) :
    ∃ ino, getInode d inum = some ino ∧ fileBlocks ino ≤ maxfile ∧
      size = Int.bmod ino.size.toNat (2 ^ 32) := by
  unfold readFile at read
  cases found : getInode d inum with
  | none =>
      rw [found] at read
      cases read
  | some ino =>
      rw [found] at read
      refine ⟨ino, rfl, ?_⟩
      obtain ⟨direct, _looped, rest⟩ := Option.bind_eq_some_iff.mp read
      rw [← fileBlocks] at rest
      by_cases short : fileBlocks ino ≤ ndirect
      · rw [if_pos short] at rest
        cases rest
        exact ⟨short.trans (by decide), rfl⟩
      · rw [if_neg short] at rest
        obtain ⟨indirect, looped, same⟩ := Option.bind_eq_some_iff.mp rest
        cases same
        refine ⟨?_, rfl⟩
        by_contra many
        change ¬ fileBlocks ino ≤ 160 at many
        change ¬ fileBlocks ino ≤ 32 at short
        have count : fileBlocks ino - min (fileBlocks ino) 32 = fileBlocks ino - 32 := by omega
        have past : 128 ∈ List.range (fileBlocks ino - min (fileBlocks ino) 32) := by
          rw [count, List.mem_range]
          omega
        obtain ⟨middle, next, taken⟩ := Loop.foldlM_each looped past
        obtain ⟨id, entry, -⟩ := Option.bind_eq_some_iff.mp taken
        unfold indirectEntry at entry
        rw [if_neg (by decide)] at entry
        cases entry

theorem get_length_le {d : Disk} {uninit : Uninit} {id : Nat} {buf : List UInt8}
    (read : get d uninit id = some buf) : buf.length ≤ maxfile * blockSize := by
  unfold get at read
  obtain ⟨out, file, rest⟩ := Option.bind_eq_some_iff.mp read
  cases out with
  | none =>
      cases rest
      exact Nat.zero_le _
  | some out =>
      obtain ⟨bufOut, size⟩ := out
      obtain ⟨ino, -, blocks, same⟩ := readFile_blocks file
      dsimp only at rest
      split at rest
      · cases rest
        exact Nat.zero_le _
      · split at rest
        · cases rest
        · cases rest
          rw [List.length_map, List.length_range]
          rw [fileBlocks_eq, maxfile_eq] at blocks
          have whole : size = ino.size.toNat := by
            rw [same]
            apply Int.bmod_eq_of_le <;> omega
          change size.toNat ≤ 81920
          omega

end CseLab.FileSystem
