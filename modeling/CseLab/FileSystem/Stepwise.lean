import CseLab.FileSystem.ExtentServer
import CseLab.Lib.Interleaving
import CseLab.Lib.Loop

/-! `put` as the sequence of its calls of `read_block` and `write_block`. The
handlers on the dispatch pool hold no lock, so two of them interleave at these
calls. A `put` with nothing in between is the `put` of the inode layer. -/

namespace CseLab.FileSystem

open ByteMemory Interleaving

inductive DiskOp where
  | readBlock (id : Nat) (buf : Memory) (offset : Nat)
  | writeBlock (id : Nat) (buf : Memory)

/-- A read answers with the buffer it has filled, a write with the one it was given. -/
def Disk.act (d : Disk) : DiskOp → Disk × Memory
  | .readBlock id buf offset => (d, d.readBlock id buf offset)
  | .writeBlock id buf => (d.writeBlock id buf, buf)

abbrev DiskScript (Result : Type) : Type := Script DiskOp Memory Result

namespace Stepwise

def readBlock (id : Nat) (buf : Memory) (offset : Nat) : DiskScript Memory :=
  .call (.readBlock id buf offset) .ret

def writeBlock (id : Nat) (buf : Memory) : DiskScript Unit :=
  .call (.writeBlock id buf) (fun _ => .ret ())

def allocLoop : (count i j : Nat) → DiskScript Nat
  | 0, _, _ => .ret 0
  | count + 1, i, j => do
      let bitMap ← readBlock i (fun _ => 0) 0
      match (List.range' j (bpb - j)).find? (fun bit => !notFree bitMap bit) with
      | some bit => do
          writeBlock i (markBit bitMap bit)
          return (i - 2) * bpb + bit
      | none => allocLoop count (i + 1) 0

def allocBlock : DiskScript Nat :=
  let id := iblock sb.ninodes sb.nblocks
  let i := bblock id
  let limit := bblock sb.nblocks
  let j := id % bpb
  allocLoop (limit - i) i j

def freeBlock (id : Nat) : DiskScript Unit := do
  let i := bblock id
  let bitMap ← readBlock i (fun _ => 0) 0
  let j := id % bpb % 256
  let id2 := j / 8
  let b := bitMap id2
  let id3 := j % 8
  let mask : Int := ~~~((1 : Int) <<< (7 - id3))
  writeBlock i (Function.update bitMap id2 (if mask ≠ 0 ∧ b ≠ 0 then 1 else 0))

def getInode (inum : Nat) : DiskScript (Option Inode) :=
  if inodeNum ≤ inum then return none
  else do
    let buf ← readBlock (iblock inum sb.nblocks) (fun _ => 0) 0
    let ino := Inode.load buf (sizeofInode * (inum % ipb))
    return if ino.type = 0 then none else some ino

def putInode (inum : Nat) (ino : Inode) : DiskScript Unit := do
  let buf ← readBlock (iblock inum sb.nblocks) (fun _ => 0) 0
  writeBlock (iblock inum sb.nblocks) (ino.store buf (sizeofInode * (inum % ipb)))

def allocDirect (ino : Inode) (originalBlock count : Nat) : DiskScript Inode :=
  (List.range count).foldlM
    (fun ino i => do
      let id ← allocBlock
      Script.ofOption (ino.setBlock ((originalBlock + i) % 2 ^ 32) id))
    ino

def allocIndirect (indirectBlocks : Memory) (i limit : Nat) : DiskScript Memory :=
  (List.range' i (limit - i)).foldlM
    (fun indirectBlocks i => do
      let id ← allocBlock
      Script.ofOption (setIndirectEntry indirectBlocks i id))
    indirectBlocks

def growFile (uninit : Uninit) (ino : Inode) (originalBlock blockCount : Nat) :
    DiskScript Inode := do
  let limit := min blockCount ndirect
  let ino ← allocDirect ino originalBlock (subUint32 limit originalBlock)
  if ndirect < blockCount then do
    let limit := blockCount - ndirect
    if originalBlock ≤ ndirect then do
      let id ← allocBlock
      let ino ← Script.ofOption (ino.setBlock ndirect id)
      let indirectBlocks ← allocIndirect uninit.indirectBlocks 0 limit
      writeBlock ino.indexBlock indirectBlocks
      return ino
    else do
      let indirectBlocks ← readBlock ino.indexBlock uninit.indirectBlocks 0
      let indirectBlocks ← allocIndirect indirectBlocks (originalBlock - ndirect) limit
      writeBlock ino.indexBlock indirectBlocks
      return ino
  else return ino

def freeIndirect (indirectBlocks : Memory) (i limit : Nat) : DiskScript Unit :=
  (List.range' i (limit - i)).foldlM
    (fun _ i => do
      let id ← Script.ofOption (indirectEntry indirectBlocks i)
      freeBlock id)
    ()

def shrinkFile (uninit : Uninit) (ino : Inode) (originalBlock blockCount : Nat) :
    DiskScript Unit := do
  let limit := min originalBlock ndirect
  (List.range (subUint32 limit blockCount)).foldlM
    (fun _ i => freeBlock ((blockCount + i) % 2 ^ 32)) ()
  if ndirect < originalBlock then do
    let indirectBlocks ← readBlock ino.indexBlock uninit.indirectBlocks 0
    let limit := originalBlock - ndirect
    if ndirect < blockCount then
      freeIndirect indirectBlocks (blockCount - ndirect) limit
    else do
      freeBlock ino.indexBlock
      freeIndirect indirectBlocks 0 limit
  else return ()

def writeDirect (ino : Inode) (buf : Memory) (limit : Nat) : DiskScript Unit :=
  (List.range limit).foldlM
    (fun _ i => do
      let id ← Script.ofOption (ino.block i)
      writeBlock id (shift buf (blockSize * i)))
    ()

def writeIndirect (indirectBlocks buf : Memory) (limit count : Nat) : DiskScript Unit :=
  (List.range count).foldlM
    (fun _ i => do
      let id ← Script.ofOption (indirectEntry indirectBlocks i)
      writeBlock id (shift buf (blockSize * (limit + i))))
    ()

def writeData (uninit : Uninit) (ino : Inode) (blockCount : Nat) (buf : Memory) :
    DiskScript Unit := do
  let limit := min blockCount ndirect
  writeDirect ino buf limit
  if blockCount ≤ ndirect then return ()
  else do
    let indirectBlocks ← readBlock ino.indexBlock uninit.indirectBlocksAgain 0
    writeIndirect indirectBlocks buf limit (blockCount - limit)

def writeFile (uninit : Uninit) (inum : Nat) (buf : Memory) (size : Int) : DiskScript Unit := do
  match ← getInode inum with
  | none => return ()
  | some ino =>
      let originalBlock := ceil ino.size.toNat blockSize
      let blockCount := toUint32 (ceilInt size blockSize)
      if maxfile < blockCount then return ()
      else do
        let ino ←
          if originalBlock < blockCount then growFile uninit ino originalBlock blockCount
          else do
            shrinkFile uninit ino originalBlock blockCount
            pure ino
        let ino := { ino with size := UInt32.ofNat (toUint32 size) }
        putInode inum ino
        writeData uninit ino blockCount buf

def put (uninit : Uninit) (id : Nat) (buf : List UInt8) : DiskScript Unit :=
  writeFile uninit (maskId id) (cStr buf uninit) (Int.bmod buf.length (2 ^ 32))

theorem readBlock_bind {Result : Type} (id : Nat) (buf : Memory) (offset : Nat)
    (next : Memory → DiskScript Result) :
    (readBlock id buf offset >>= next) = .call (.readBlock id buf offset) next := rfl

theorem writeBlock_bind {Result : Type} (id : Nat) (buf : Memory)
    (next : Unit → DiskScript Result) :
    (writeBlock id buf >>= next) = .call (.writeBlock id buf) (fun _ => next ()) := rfl

/-! ### A `put` on its own -/

theorem alone_readBlock (id : Nat) (buf : Memory) (offset : Nat) (d : Disk) :
    (readBlock id buf offset).alone Disk.act d = some (d, d.readBlock id buf offset) := rfl

theorem alone_allocLoop (d : Disk) (count i j : Nat) :
    (allocLoop count i j).alone Disk.act d = some (FileSystem.allocLoop d count i j).swap := by
  induction count generalizing i j with
  | zero => rfl
  | succ count ih =>
      unfold allocLoop FileSystem.allocLoop
      rw [Script.alone_bind, alone_readBlock, Option.bind_some]
      dsimp only
      cases (List.range' j (bpb - j)).find?
          (fun bit => !notFree (d.readBlock i (fun _ => 0) 0) bit) with
      | none => exact ih (i + 1) 0
      | some bit => rfl

theorem alone_allocBlock (d : Disk) :
    allocBlock.alone Disk.act d = some (FileSystem.allocBlock d).swap :=
  alone_allocLoop d _ _ _

theorem alone_freeBlock (id : Nat) (d : Disk) :
    (freeBlock id).alone Disk.act d = some (FileSystem.freeBlock d id, ()) := rfl

theorem alone_getInode (inum : Nat) (d : Disk) :
    (getInode inum).alone Disk.act d = some (d, FileSystem.getInode d inum) := by
  unfold getInode FileSystem.getInode
  split
  · rfl
  · rfl

theorem alone_putInode (inum : Nat) (ino : Inode) (d : Disk) :
    (putInode inum ino).alone Disk.act d = some (FileSystem.putInode d inum ino, ()) := rfl

theorem alone_allocDirect (d : Disk) (ino : Inode) (originalBlock count : Nat) :
    (allocDirect ino originalBlock count).alone Disk.act d =
      FileSystem.allocDirect d ino originalBlock count := by
  unfold allocDirect FileSystem.allocDirect
  rw [Script.alone_foldlM]
  congr 1
  funext state i
  rw [Script.alone_bind, alone_allocBlock, Option.bind_some, Script.alone_ofOption]
  exact Option.map_eq_bind

theorem alone_allocIndirect (d : Disk) (indirectBlocks : Memory) (i limit : Nat) :
    (allocIndirect indirectBlocks i limit).alone Disk.act d =
      FileSystem.allocIndirect d indirectBlocks i limit := by
  unfold allocIndirect FileSystem.allocIndirect
  rw [Script.alone_foldlM]
  congr 1
  funext state i
  rw [Script.alone_bind, alone_allocBlock, Option.bind_some, Script.alone_ofOption]
  exact Option.map_eq_bind

theorem alone_growFile (d : Disk) (uninit : Uninit) (ino : Inode)
    (originalBlock blockCount : Nat) :
    (growFile uninit ino originalBlock blockCount).alone Disk.act d =
      FileSystem.growFile d uninit ino originalBlock blockCount := by
  unfold growFile FileSystem.growFile
  simp only [Script.alone_bind, alone_allocDirect, Option.bind_eq_bind]
  congr 1
  funext after
  split
  · split
    · simp only [Script.alone_bind, alone_allocBlock, Option.bind_some, Script.alone_ofOption,
        Prod.fst_swap, Prod.snd_swap]
      cases after.2.setBlock ndirect (FileSystem.allocBlock after.1).1 with
      | none => rfl
      | some next =>
          simp only [Option.map_some, Option.bind_some, alone_allocIndirect]
          rfl
    · simp only [Script.alone_bind, alone_readBlock, Option.bind_some, alone_allocIndirect]
      rfl
  · rfl

theorem alone_freeIndirect (d : Disk) (indirectBlocks : Memory) (i limit : Nat) :
    (freeIndirect indirectBlocks i limit).alone Disk.act d =
      (FileSystem.freeIndirect d indirectBlocks i limit).map (fun d => (d, ())) := by
  unfold freeIndirect FileSystem.freeIndirect
  rw [Script.alone_foldlM_unit]
  congr 2
  funext d i
  rw [Script.alone_bind, Script.alone_ofOption]
  cases indirectEntry indirectBlocks i with
  | none => rfl
  | some id => rfl

theorem alone_shrinkFile (d : Disk) (uninit : Uninit) (ino : Inode)
    (originalBlock blockCount : Nat) :
    (shrinkFile uninit ino originalBlock blockCount).alone Disk.act d =
      (FileSystem.shrinkFile d uninit ino originalBlock blockCount).map (fun d => (d, ())) := by
  unfold shrinkFile FileSystem.shrinkFile
  have freed : (List.range (subUint32 (min originalBlock ndirect) blockCount)).foldlM
      (fun d i => ((freeBlock ((blockCount + i) % 2 ^ 32)).alone Disk.act d).map Prod.fst) d =
      some ((List.range (subUint32 (min originalBlock ndirect) blockCount)).foldl
        (fun d i => FileSystem.freeBlock d ((blockCount + i) % 2 ^ 32)) d) :=
    Loop.foldlM_eq_foldl (fun _d _i _member => rfl) d
  simp only [Script.alone_bind, Script.alone_foldlM_unit, freed, Option.map_some, Option.bind_some]
  split
  · simp only [Script.alone_bind, alone_readBlock, Option.bind_some]
    split
    · exact alone_freeIndirect _ _ _ _
    · simp only [Script.alone_bind, alone_freeBlock, Option.bind_some]
      exact alone_freeIndirect _ _ _ _
  · rfl

theorem alone_writeDirect (d : Disk) (ino : Inode) (buf : Memory) (limit : Nat) :
    (writeDirect ino buf limit).alone Disk.act d =
      (FileSystem.writeDirect d ino buf limit).map (fun d => (d, ())) := by
  unfold writeDirect FileSystem.writeDirect
  rw [Script.alone_foldlM_unit]
  congr 2
  funext d i
  rw [Script.alone_bind, Script.alone_ofOption]
  cases ino.block i with
  | none => rfl
  | some id => rfl

theorem alone_writeIndirect (d : Disk) (indirectBlocks buf : Memory) (limit count : Nat) :
    (writeIndirect indirectBlocks buf limit count).alone Disk.act d =
      (FileSystem.writeIndirect d indirectBlocks buf limit count).map (fun d => (d, ())) := by
  unfold writeIndirect FileSystem.writeIndirect
  rw [Script.alone_foldlM_unit]
  congr 2
  funext d i
  rw [Script.alone_bind, Script.alone_ofOption]
  cases indirectEntry indirectBlocks i with
  | none => rfl
  | some id => rfl

theorem alone_writeData (d : Disk) (uninit : Uninit) (ino : Inode) (blockCount : Nat)
    (buf : Memory) :
    (writeData uninit ino blockCount buf).alone Disk.act d =
      (FileSystem.writeData d uninit ino blockCount buf).map (fun d => (d, ())) := by
  unfold writeData FileSystem.writeData
  simp only [Script.alone_bind, alone_writeDirect]
  cases FileSystem.writeDirect d ino buf (min blockCount ndirect) with
  | none => rfl
  | some after =>
      simp only [Option.map_some, Option.bind_some, Option.bind_eq_bind]
      split
      · rfl
      · simp only [Script.alone_bind, alone_readBlock, Option.bind_some]
        exact alone_writeIndirect _ _ _ _ _

theorem alone_writeFile (d : Disk) (uninit : Uninit) (inum : Nat) (buf : Memory) (size : Int) :
    (writeFile uninit inum buf size).alone Disk.act d =
      (FileSystem.writeFile d uninit inum buf size).map (fun d => (d, ())) := by
  unfold writeFile FileSystem.writeFile
  simp only [Script.alone_bind, alone_getInode, Option.bind_some]
  cases FileSystem.getInode d inum with
  | none => rfl
  | some ino =>
      simp only
      split
      · rfl
      · split
        · rw [Script.alone_bind, alone_growFile]
          cases FileSystem.growFile d uninit ino (ceil ino.size.toNat blockSize)
              (toUint32 (ceilInt size blockSize)) with
          | none => rfl
          | some after =>
              simp only [Option.bind_some, Script.alone_bind, alone_putInode, Option.bind_eq_bind]
              exact alone_writeData _ _ _ _ _
        · rw [Script.alone_bind, alone_shrinkFile]
          cases FileSystem.shrinkFile d uninit ino (ceil ino.size.toNat blockSize)
              (toUint32 (ceilInt size blockSize)) with
          | none => rfl
          | some after =>
              simp only [Option.map_some, Option.bind_some, Script.pure_eq, Script.ret_bind,
                Script.alone_bind, alone_putInode, Option.bind_eq_bind]
              exact alone_writeData _ _ _ _ _

theorem alone_put (d : Disk) (uninit : Uninit) (id : Nat) (buf : List UInt8) :
    (put uninit id buf).alone Disk.act d =
      (FileSystem.put d uninit id buf).map (fun d => (d, ())) :=
  alone_writeFile _ _ _ _ _

end Stepwise

end CseLab.FileSystem
