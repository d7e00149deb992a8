import CseLab.FileSystem.BlockManager

/-! The inode layer of `inode_manager.cc`. A function returns `none` where the
source steps outside one of its arrays; `Uninit` supplies the bytes that the
source reads from memory it has not written. -/

namespace CseLab.FileSystem

open ByteMemory

@[ext]
structure Inode where
  type : UInt16
  size : UInt32
  atime : UInt32
  mtime : UInt32
  ctime : UInt32
  blocks : Vector UInt32 (ndirect + 1)
deriving DecidableEq

def Inode.load (memory : Memory) (base : Nat) : Inode :=
  { type := load16 memory base
    size := load32 memory (base + 4)
    atime := load32 memory (base + 8)
    mtime := load32 memory (base + 12)
    ctime := load32 memory (base + 16)
    blocks := Vector.ofFn (fun index => load32 memory (base + 20 + 4 * index.val)) }

def Inode.storeBlocks (ino : Inode) (memory : Memory) (base : Nat) : (count : Nat) → Memory
  | 0 => memory
  | count + 1 =>
      store32 (ino.storeBlocks memory base count) (base + 20 + 4 * count)
        (ino.blocks[count]?.getD 0)

/-- Structure assignment, field by field; the padding keeps its bytes. -/
def Inode.store (ino : Inode) (memory : Memory) (base : Nat) : Memory :=
  let memory := store16 memory base ino.type
  let memory := store32 memory (base + 4) ino.size
  let memory := store32 memory (base + 8) ino.atime
  let memory := store32 memory (base + 12) ino.mtime
  let memory := store32 memory (base + 16) ino.ctime
  ino.storeBlocks memory base (ndirect + 1)

/-- What each buffer or local holds before the source writes it: the local of
`alloc_inode`, the `indirect_blocks` of the branches that allocate or free and the one
of the data transfer, the buffer of `read_file`, and what is behind the zero of the
caller's string. -/
structure Uninit where
  ino : Inode
  indirectBlocks : Memory
  indirectBlocksAgain : Memory
  bufOut : Memory
  pastEnd : Memory

def Uninit.zero : Uninit :=
  { ino :=
      { type := 0, size := 0, atime := 0, mtime := 0, ctime := 0
        blocks := Vector.replicate (ndirect + 1) 0 }
    indirectBlocks := fun _ => 0
    indirectBlocksAgain := fun _ => 0
    bufOut := fun _ => 0
    pastEnd := fun _ => 0 }

def ceil (a b : Nat) : Nat := if a % b = 0 then a / b else a / b + 1

/-- `CEIL` on `int` operands, where division truncates toward zero. -/
def ceilInt (a b : Int) : Int := if a.tmod b = 0 then a.tdiv b else a.tdiv b + 1

def toUint32 (a : Int) : Nat := (a % 2 ^ 32).toNat

def subUint32 (a b : Nat) : Nat := toUint32 ((a : Int) - b)

def getInode (d : Disk) (inum : Nat) : Option Inode :=
  if inodeNum ≤ inum then none
  else
    let buf := d.readBlock (iblock inum sb.nblocks) (fun _ => 0) 0
    let ino := Inode.load buf (sizeofInode * (inum % ipb))
    if ino.type = 0 then none else some ino

def putInode (d : Disk) (inum : Nat) (ino : Inode) : Disk :=
  let buf := d.readBlock (iblock inum sb.nblocks) (fun _ => 0) 0
  d.writeBlock (iblock inum sb.nblocks) (ino.store buf (sizeofInode * (inum % ipb)))

/-- Create a new file; 0 when every inode is taken. The local inode gets its
type and size, and nothing else. -/
def allocInode (d : Disk) (uninit : Uninit) (type : UInt32) : Nat × Disk :=
  match (List.range' 1 (sb.ninodes - 1)).find? (fun inum => (getInode d inum).isNone) with
  | some inum =>
      (inum, putInode d inum { uninit.ino with type := type.toUInt16, size := 0 })
  | none => (0, d)

def freeInode (d : Disk) (inum : Nat) : Disk :=
  match getInode d inum with
  | none => d
  | some ino => putInode d inum { ino with type := 0, size := 0 }

/-- `indirect_blocks[i]`, inside a buffer of `NINDIRECT` entries. -/
def indirectEntry (indirectBlocks : Memory) (i : Nat) : Option Nat :=
  if i < nindirect then some (load32 indirectBlocks (4 * i)).toNat else none

def setIndirectEntry (indirectBlocks : Memory) (i id : Nat) : Option Memory :=
  if i < nindirect then some (store32 indirectBlocks (4 * i) (UInt32.ofNat id)) else none

/-- `ino->blocks[i]`, inside an array of `NDIRECT + 1` addresses. -/
def Inode.block (ino : Inode) (i : Nat) : Option Nat := ino.blocks[i]?.map UInt32.toNat

def Inode.setBlock (ino : Inode) (i id : Nat) : Option Inode :=
  if h : i < ndirect + 1 then
    some { ino with blocks := ino.blocks.set i (UInt32.ofNat id) h }
  else none

def Inode.indexBlock (ino : Inode) : Nat := (ino.blocks[ndirect]).toNat

def readDirect (d : Disk) (ino : Inode) (bufOut : Memory) (limit : Nat) : Option Memory :=
  (List.range limit).foldlM
    (fun bufOut i => do
      let id ← ino.block i
      some (d.readBlock id bufOut (blockSize * i)))
    bufOut

def readIndirect (d : Disk) (indirectBlocks bufOut : Memory) (limit count : Nat) :
    Option Memory :=
  (List.range count).foldlM
    (fun bufOut i => do
      let id ← indirectEntry indirectBlocks i
      some (d.readBlock id bufOut (blockSize * (limit + i))))
    bufOut

/-- The data and the `int` size that `read_file` hands out; the outer `none` is
an access outside an array, the inner one an inode that does not exist. -/
def readFile (d : Disk) (uninit : Uninit) (inum : Nat) : Option (Option (Memory × Int)) :=
  match getInode d inum with
  | none => some none
  | some ino => do
      let blockCount := ceil ino.size.toNat blockSize
      let size := Int.bmod ino.size.toNat (2 ^ 32)
      let limit := min blockCount ndirect
      let bufOut ← readDirect d ino uninit.bufOut limit
      if blockCount ≤ ndirect then some (some (bufOut, size))
      else do
        let indirectBlocks := d.readBlock ino.indexBlock uninit.indirectBlocks 0
        let bufOut ← readIndirect d indirectBlocks bufOut limit (blockCount - limit)
        some (some (bufOut, size))

def allocDirect (d : Disk) (ino : Inode) (originalBlock count : Nat) : Option (Disk × Inode) :=
  (List.range count).foldlM
    (fun (state : Disk × Inode) i => do
      let (id, d) := allocBlock state.1
      let ino ← state.2.setBlock ((originalBlock + i) % 2 ^ 32) id
      some (d, ino))
    (d, ino)

def allocIndirect (d : Disk) (indirectBlocks : Memory) (i limit : Nat) :
    Option (Disk × Memory) :=
  (List.range' i (limit - i)).foldlM
    (fun (state : Disk × Memory) i => do
      let (id, d) := allocBlock state.1
      let indirectBlocks ← setIndirectEntry state.2 i id
      some (d, indirectBlocks))
    (d, indirectBlocks)

def growFile (d : Disk) (uninit : Uninit) (ino : Inode) (originalBlock blockCount : Nat) :
    Option (Disk × Inode) := do
  let limit := min blockCount ndirect
  let (d, ino) ← allocDirect d ino originalBlock (subUint32 limit originalBlock)
  if ndirect < blockCount then do
    let limit := blockCount - ndirect
    if originalBlock ≤ ndirect then do
      let (id, d) := allocBlock d
      let ino ← ino.setBlock ndirect id
      let (d, indirectBlocks) ← allocIndirect d uninit.indirectBlocks 0 limit
      some (d.writeBlock ino.indexBlock indirectBlocks, ino)
    else do
      let indirectBlocks := d.readBlock ino.indexBlock uninit.indirectBlocks 0
      let (d, indirectBlocks) ←
        allocIndirect d indirectBlocks (originalBlock - ndirect) limit
      some (d.writeBlock ino.indexBlock indirectBlocks, ino)
  else some (d, ino)

def freeIndirect (d : Disk) (indirectBlocks : Memory) (i limit : Nat) : Option Disk :=
  (List.range' i (limit - i)).foldlM
    (fun d i => do
      let id ← indirectEntry indirectBlocks i
      some (freeBlock d id))
    d

/-- The branch of `write_file` taken when the file gains no block. The direct
loop passes block counts to `free_block`, and its bound is a `uint32_t`. -/
def shrinkFile (d : Disk) (uninit : Uninit) (ino : Inode) (originalBlock blockCount : Nat) :
    Option Disk :=
  let limit := min originalBlock ndirect
  let d := (List.range (subUint32 limit blockCount)).foldl
    (fun d i => freeBlock d ((blockCount + i) % 2 ^ 32)) d
  if ndirect < originalBlock then
    let indirectBlocks := d.readBlock ino.indexBlock uninit.indirectBlocks 0
    let limit := originalBlock - ndirect
    if ndirect < blockCount then
      freeIndirect d indirectBlocks (blockCount - ndirect) limit
    else
      freeIndirect (freeBlock d ino.indexBlock) indirectBlocks 0 limit
  else some d

def writeDirect (d : Disk) (ino : Inode) (buf : Memory) (limit : Nat) : Option Disk :=
  (List.range limit).foldlM
    (fun d i => do
      let id ← ino.block i
      some (d.writeBlock id (shift buf (blockSize * i))))
    d

def writeIndirect (d : Disk) (indirectBlocks buf : Memory) (limit count : Nat) : Option Disk :=
  (List.range count).foldlM
    (fun d i => do
      let id ← indirectEntry indirectBlocks i
      some (d.writeBlock id (shift buf (blockSize * (limit + i)))))
    d

def writeData (d : Disk) (uninit : Uninit) (ino : Inode) (blockCount : Nat) (buf : Memory) :
    Option Disk := do
  let limit := min blockCount ndirect
  let d ← writeDirect d ino buf limit
  if blockCount ≤ ndirect then some d
  else
    let indirectBlocks := d.readBlock ino.indexBlock uninit.indirectBlocksAgain 0
    writeIndirect d indirectBlocks buf limit (blockCount - limit)

def writeFile (d : Disk) (uninit : Uninit) (inum : Nat) (buf : Memory) (size : Int) :
    Option Disk :=
  match getInode d inum with
  | none => some d
  | some ino =>
      let originalBlock := ceil ino.size.toNat blockSize
      let blockCount := toUint32 (ceilInt size blockSize)
      if maxfile < blockCount then some d
      else do
        let (d, ino) ←
          if originalBlock < blockCount then growFile d uninit ino originalBlock blockCount
          else (shrinkFile d uninit ino originalBlock blockCount).map (fun d => (d, ino))
        let ino := { ino with size := UInt32.ofNat (toUint32 size) }
        writeData (putInode d inum ino) uninit ino blockCount buf

structure Attr where
  type : UInt32
  atime : UInt32
  mtime : UInt32
  ctime : UInt32
  size : UInt32
deriving DecidableEq

/-- The attributes go into `a`; those of a missing inode overwrite two fields. -/
def inodeAttr (d : Disk) (inum : Nat) (a : Attr) : Attr :=
  match getInode d inum with
  | none => { a with type := 0, size := 0 }
  | some ino =>
      { type := UInt32.ofNat (toUint32 (Int.bmod ino.type.toNat (2 ^ 16)))
        atime := ino.atime
        mtime := ino.mtime
        ctime := ino.ctime
        size := ino.size }

/-- The direct loop passes its own index to `free_block`, and the index block
is not passed at all. -/
def removeFile (d : Disk) (uninit : Uninit) (inum : Nat) : Option Disk :=
  match getInode d inum with
  | none => some d
  | some ino => do
      let originalBlock := ceil ino.size.toNat blockSize
      let limit := min originalBlock ndirect
      let d := (List.range limit).foldl (fun d id => freeBlock d id) d
      let d ←
        if ndirect < originalBlock then
          let indirectBlocks := d.readBlock ino.indexBlock uninit.indirectBlocks 0
          freeIndirect d indirectBlocks 0 (originalBlock - limit)
        else some d
      some (freeInode d inum)

end CseLab.FileSystem
