import CseLab.FileSystem.InodeManager
import CseLab.Lib.Bounds
import CseLab.Lib.Logged

/-! `read_file` and `write_file` with their accesses: each index into the inode
or an index block, the bytes moved from or to the buffer of the caller, and what
bounds each loop. Without the accesses they are `readFile` and `writeFile`. -/

namespace CseLab.FileSystem

open ByteMemory Bounds

/-- What a handler touches or relies on: `ino->blocks[i]`, `indirect_blocks[i]`, bytes
of the buffer that `write_file` gets or `read_file` hands out, the bound `a - b` of a
loop, and how often a loop that allocates or frees goes round, with the blocks that the
file gains or loses. -/
inductive FileAccess where
  | inodeBlock (i : Nat)
  | indirect (i : Nat)
  | buffer (access : Access)
  | bound (a b : Nat)
  | loop (rounds change : Nat)

/-- A bound must not wrap. -/
def FileAccess.InBounds : FileAccess → Prop
  | .inodeBlock i => i ≤ ndirect
  | .indirect i => i < nindirect
  | .buffer access => access.Fits
  | .bound a b => b ≤ a
  | .loop rounds change => rounds ≤ change

def Inode.blockLogged (ino : Inode) (i : Nat) : Logged FileAccess Nat := do
  Logged.tell (.inodeBlock i)
  .ofOption (ino.block i)

def Inode.setBlockLogged (ino : Inode) (i id : Nat) : Logged FileAccess Inode := do
  Logged.tell (.inodeBlock i)
  .ofOption (ino.setBlock i id)

def Inode.indexBlockLogged (ino : Inode) : Logged FileAccess Nat := do
  Logged.tell (.inodeBlock ndirect)
  pure ino.indexBlock

def indirectEntryLogged (indirectBlocks : Memory) (i : Nat) : Logged FileAccess Nat := do
  Logged.tell (.indirect i)
  .ofOption (indirectEntry indirectBlocks i)

def setIndirectEntryLogged (indirectBlocks : Memory) (i id : Nat) : Logged FileAccess Memory := do
  Logged.tell (.indirect i)
  .ofOption (setIndirectEntry indirectBlocks i id)

/-- `read_block` or `write_block` between a block of the disk and the given block
of a buffer; nothing is moved for a block number off the disk. -/
def transfer (id place capacity : Nat) : Logged FileAccess Unit :=
  if id < blockNum then
    Logged.tell
      (.buffer { offset := blockSize * place, count := blockSize, capacity := capacity })
  else pure ()

/-! ### Reading -/

def readDirectLogged (d : Disk) (ino : Inode) (bufOut : Memory) (limit capacity : Nat) :
    Logged FileAccess Memory :=
  Logged.fold
    (fun bufOut i => do
      let id ← ino.blockLogged i
      transfer id i capacity
      pure (d.readBlock id bufOut (blockSize * i)))
    bufOut (List.range limit)

def readIndirectLogged (d : Disk) (indirectBlocks bufOut : Memory) (limit count capacity : Nat) :
    Logged FileAccess Memory :=
  Logged.fold
    (fun bufOut i => do
      let id ← indirectEntryLogged indirectBlocks i
      transfer id (limit + i) capacity
      pure (d.readBlock id bufOut (blockSize * (limit + i))))
    bufOut (List.range count)

/-- The buffer has room for whole blocks. -/
def readFileLogged (d : Disk) (uninit : Uninit) (inum : Nat) :
    Logged FileAccess (Option (Memory × Int)) :=
  match getInode d inum with
  | none => pure none
  | some ino => do
      let blockCount := ceil ino.size.toNat blockSize
      let size := Int.bmod ino.size.toNat (2 ^ 32)
      let limit := min blockCount ndirect
      let capacity := blockCount * blockSize
      let bufOut ← readDirectLogged d ino uninit.bufOut limit capacity
      if blockCount ≤ ndirect then pure (some (bufOut, size))
      else do
        let index ← ino.indexBlockLogged
        let indirectBlocks := d.readBlock index uninit.indirectBlocks 0
        Logged.tell (.bound blockCount limit)
        let bufOut ←
          readIndirectLogged d indirectBlocks bufOut limit (blockCount - limit) capacity
        pure (some (bufOut, size))

/-! ### Gaining and losing blocks -/

def allocDirectLogged (d : Disk) (ino : Inode) (originalBlock count : Nat) :
    Logged FileAccess (Disk × Inode) :=
  Logged.fold
    (fun (state : Disk × Inode) i => do
      let (id, d) := allocBlock state.1
      let ino ← state.2.setBlockLogged ((originalBlock + i) % 2 ^ 32) id
      pure (d, ino))
    (d, ino) (List.range count)

def allocIndirectLogged (d : Disk) (indirectBlocks : Memory) (i limit : Nat) :
    Logged FileAccess (Disk × Memory) :=
  Logged.fold
    (fun (state : Disk × Memory) i => do
      let (id, d) := allocBlock state.1
      let indirectBlocks ← setIndirectEntryLogged state.2 i id
      pure (d, indirectBlocks))
    (d, indirectBlocks) (List.range' i (limit - i))

def growFileLogged (d : Disk) (uninit : Uninit) (ino : Inode) (originalBlock blockCount : Nat) :
    Logged FileAccess (Disk × Inode) := do
  let gained := blockCount - originalBlock
  let limit := min blockCount ndirect
  Logged.tell (.bound limit originalBlock)
  Logged.tell (.loop (subUint32 limit originalBlock) gained)
  let (d, ino) ← allocDirectLogged d ino originalBlock (subUint32 limit originalBlock)
  if ndirect < blockCount then do
    Logged.tell (.bound blockCount ndirect)
    let limit := blockCount - ndirect
    if originalBlock ≤ ndirect then do
      let (id, d) := allocBlock d
      let ino ← ino.setBlockLogged ndirect id
      Logged.tell (.loop limit gained)
      let (d, indirectBlocks) ← allocIndirectLogged d uninit.indirectBlocks 0 limit
      let index ← ino.indexBlockLogged
      pure (d.writeBlock index indirectBlocks, ino)
    else do
      Logged.tell (.bound originalBlock ndirect)
      let index ← ino.indexBlockLogged
      let indirectBlocks := d.readBlock index uninit.indirectBlocks 0
      Logged.tell (.loop (limit - (originalBlock - ndirect)) gained)
      let (d, indirectBlocks) ←
        allocIndirectLogged d indirectBlocks (originalBlock - ndirect) limit
      let index ← ino.indexBlockLogged
      pure (d.writeBlock index indirectBlocks, ino)
  else pure (d, ino)

def freeIndirectLogged (d : Disk) (indirectBlocks : Memory) (i limit : Nat) :
    Logged FileAccess Disk :=
  Logged.fold
    (fun d i => do
      let id ← indirectEntryLogged indirectBlocks i
      pure (freeBlock d id))
    d (List.range' i (limit - i))

def shrinkFileLogged (d : Disk) (uninit : Uninit) (ino : Inode) (originalBlock blockCount : Nat) :
    Logged FileAccess Disk := do
  let lost := originalBlock - blockCount
  let limit := min originalBlock ndirect
  Logged.tell (.bound limit blockCount)
  Logged.tell (.loop (subUint32 limit blockCount) lost)
  let d := (List.range (subUint32 limit blockCount)).foldl
    (fun d i => freeBlock d ((blockCount + i) % 2 ^ 32)) d
  if ndirect < originalBlock then do
    let index ← ino.indexBlockLogged
    let indirectBlocks := d.readBlock index uninit.indirectBlocks 0
    Logged.tell (.bound originalBlock ndirect)
    let limit := originalBlock - ndirect
    if ndirect < blockCount then do
      Logged.tell (.bound blockCount ndirect)
      Logged.tell (.loop (limit - (blockCount - ndirect)) lost)
      freeIndirectLogged d indirectBlocks (blockCount - ndirect) limit
    else do
      let index ← ino.indexBlockLogged
      Logged.tell (.loop limit lost)
      freeIndirectLogged (freeBlock d index) indirectBlocks 0 limit
  else pure d

/-! ### Writing -/

def writeDirectLogged (d : Disk) (ino : Inode) (buf : Memory) (limit capacity : Nat) :
    Logged FileAccess Disk :=
  Logged.fold
    (fun d i => do
      let id ← ino.blockLogged i
      transfer id i capacity
      pure (d.writeBlock id (shift buf (blockSize * i))))
    d (List.range limit)

def writeIndirectLogged (d : Disk) (indirectBlocks buf : Memory) (limit count capacity : Nat) :
    Logged FileAccess Disk :=
  Logged.fold
    (fun d i => do
      let id ← indirectEntryLogged indirectBlocks i
      transfer id (limit + i) capacity
      pure (d.writeBlock id (shift buf (blockSize * (limit + i)))))
    d (List.range count)

def writeDataLogged (d : Disk) (uninit : Uninit) (ino : Inode) (blockCount : Nat) (buf : Memory)
    (capacity : Nat) : Logged FileAccess Disk := do
  let limit := min blockCount ndirect
  let d ← writeDirectLogged d ino buf limit capacity
  if blockCount ≤ ndirect then pure d
  else do
    let index ← ino.indexBlockLogged
    let indirectBlocks := d.readBlock index uninit.indirectBlocksAgain 0
    Logged.tell (.bound blockCount limit)
    writeIndirectLogged d indirectBlocks buf limit (blockCount - limit) capacity

/-- The caller's buffer has `size` bytes. -/
def writeFileLogged (d : Disk) (uninit : Uninit) (inum : Nat) (buf : Memory) (size : Int) :
    Logged FileAccess Disk :=
  match getInode d inum with
  | none => pure d
  | some ino =>
      let originalBlock := ceil ino.size.toNat blockSize
      let blockCount := toUint32 (ceilInt size blockSize)
      if maxfile < blockCount then pure d
      else do
        let (d, ino) ←
          if originalBlock < blockCount then growFileLogged d uninit ino originalBlock blockCount
          else do
            let d ← shrinkFileLogged d uninit ino originalBlock blockCount
            pure (d, ino)
        let ino := { ino with size := UInt32.ofNat (toUint32 size) }
        writeDataLogged (putInode d inum ino) uninit ino blockCount buf size.toNat

/-! ### Without the accesses -/

open Logged

theorem result_blockLogged (ino : Inode) (i : Nat) : (ino.blockLogged i).result = ino.block i := rfl

theorem result_setBlockLogged (ino : Inode) (i id : Nat) :
    (ino.setBlockLogged i id).result = ino.setBlock i id := rfl

theorem result_indexBlockLogged (ino : Inode) :
    ino.indexBlockLogged.result = some ino.indexBlock := rfl

theorem result_indirectEntryLogged (indirectBlocks : Memory) (i : Nat) :
    (indirectEntryLogged indirectBlocks i).result = indirectEntry indirectBlocks i := rfl

theorem result_setIndirectEntryLogged (indirectBlocks : Memory) (i id : Nat) :
    (setIndirectEntryLogged indirectBlocks i id).result =
      setIndirectEntry indirectBlocks i id := rfl

theorem result_transfer (id place capacity : Nat) :
    (transfer id place capacity).result = some () := by
  unfold transfer
  split <;> rfl

theorem result_readDirectLogged (d : Disk) (ino : Inode) (bufOut : Memory) (limit capacity : Nat) :
    (readDirectLogged d ino bufOut limit capacity).result = readDirect d ino bufOut limit := by
  unfold readDirectLogged readDirect
  simp only [result_fold, bind_eq, pure_eq, result_bind, result_ofOption, result_blockLogged,
    result_transfer, Option.bind_some, Option.bind_eq_bind]

theorem result_readIndirectLogged (d : Disk) (indirectBlocks bufOut : Memory)
    (limit count capacity : Nat) :
    (readIndirectLogged d indirectBlocks bufOut limit count capacity).result =
      readIndirect d indirectBlocks bufOut limit count := by
  unfold readIndirectLogged readIndirect
  simp only [result_fold, bind_eq, pure_eq, result_bind, result_ofOption,
    result_indirectEntryLogged, result_transfer, Option.bind_some, Option.bind_eq_bind]

theorem result_allocDirectLogged (d : Disk) (ino : Inode) (originalBlock count : Nat) :
    (allocDirectLogged d ino originalBlock count).result =
      allocDirect d ino originalBlock count := by
  unfold allocDirectLogged allocDirect
  simp only [result_fold, bind_eq, pure_eq, result_bind, result_ofOption, result_setBlockLogged,
    Option.bind_eq_bind]

theorem result_allocIndirectLogged (d : Disk) (indirectBlocks : Memory) (i limit : Nat) :
    (allocIndirectLogged d indirectBlocks i limit).result =
      allocIndirect d indirectBlocks i limit := by
  unfold allocIndirectLogged allocIndirect
  simp only [result_fold, bind_eq, pure_eq, result_bind, result_ofOption,
    result_setIndirectEntryLogged, Option.bind_eq_bind]

theorem result_growFileLogged (d : Disk) (uninit : Uninit) (ino : Inode)
    (originalBlock blockCount : Nat) :
    (growFileLogged d uninit ino originalBlock blockCount).result =
      growFile d uninit ino originalBlock blockCount := by
  unfold growFileLogged growFile
  simp only [bind_eq, pure_eq, result_bind, result_tell, result_allocDirectLogged,
    result_allocIndirectLogged, result_setBlockLogged, result_indexBlockLogged, result_ofOption,
    apply_ite Logged.result, Option.bind_some, Option.bind_eq_bind]

theorem result_freeIndirectLogged (d : Disk) (indirectBlocks : Memory) (i limit : Nat) :
    (freeIndirectLogged d indirectBlocks i limit).result =
      freeIndirect d indirectBlocks i limit := by
  unfold freeIndirectLogged freeIndirect
  simp only [result_fold, bind_eq, pure_eq, result_bind, result_ofOption,
    result_indirectEntryLogged, Option.bind_eq_bind]

theorem result_shrinkFileLogged (d : Disk) (uninit : Uninit) (ino : Inode)
    (originalBlock blockCount : Nat) :
    (shrinkFileLogged d uninit ino originalBlock blockCount).result =
      shrinkFile d uninit ino originalBlock blockCount := by
  unfold shrinkFileLogged shrinkFile
  simp only [bind_eq, pure_eq, result_bind, result_tell, result_freeIndirectLogged,
    result_indexBlockLogged, result_ofOption, apply_ite Logged.result, Option.bind_some]

theorem result_writeDirectLogged (d : Disk) (ino : Inode) (buf : Memory) (limit capacity : Nat) :
    (writeDirectLogged d ino buf limit capacity).result = writeDirect d ino buf limit := by
  unfold writeDirectLogged writeDirect
  simp only [result_fold, bind_eq, pure_eq, result_bind, result_ofOption, result_blockLogged,
    result_transfer, Option.bind_some, Option.bind_eq_bind]

theorem result_writeIndirectLogged (d : Disk) (indirectBlocks buf : Memory)
    (limit count capacity : Nat) :
    (writeIndirectLogged d indirectBlocks buf limit count capacity).result =
      writeIndirect d indirectBlocks buf limit count := by
  unfold writeIndirectLogged writeIndirect
  simp only [result_fold, bind_eq, pure_eq, result_bind, result_ofOption,
    result_indirectEntryLogged, result_transfer, Option.bind_some, Option.bind_eq_bind]

theorem result_writeDataLogged (d : Disk) (uninit : Uninit) (ino : Inode) (blockCount : Nat)
    (buf : Memory) (capacity : Nat) :
    (writeDataLogged d uninit ino blockCount buf capacity).result =
      writeData d uninit ino blockCount buf := by
  unfold writeDataLogged writeData
  simp only [bind_eq, pure_eq, result_bind, result_tell, result_writeDirectLogged,
    result_writeIndirectLogged, result_indexBlockLogged, result_ofOption, apply_ite Logged.result,
    Option.bind_some, Option.bind_eq_bind]

end CseLab.FileSystem
