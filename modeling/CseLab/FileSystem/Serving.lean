import CseLab.FileSystem.Stepwise
import CseLab.Lib.OneWriter

/-! Every handler of the server as the sequence of its calls of `read_block` and
`write_block`, with what it answers. -/

namespace CseLab.FileSystem

open ByteMemory Interleaving

inductive Reply where
  | created (id : Nat)
  | done
  | data (buf : List UInt8)
  | attr (a : Attr)
deriving DecidableEq

/-- A handler with nothing in between: the disk it leaves and what it answers. -/
def answer (d : Disk) : Request → Option (Disk × Reply)
  | .create type uninit =>
      let (id, d) := create d uninit type
      some (d, .created id)
  | .put id buf uninit => (put d uninit id buf).map (fun d => (d, .done))
  | .get id uninit => (get d uninit id).map (fun buf => (d, .data buf))
  | .getattr id => some (d, .attr (getattr d id))
  | .remove id uninit => (remove d uninit id).map (fun d => (d, .done))

theorem answer_serve (d : Disk) (request : Request) :
    (answer d request).map Prod.fst = serve d request := by
  cases request with
  | create type uninit => rfl
  | put id buf uninit => exact Option.map_map _ _ _ |>.trans Option.map_id'
  | get id uninit => exact Option.map_map _ _ _
  | getattr id => rfl
  | remove id uninit => exact Option.map_map _ _ _ |>.trans Option.map_id'

namespace Stepwise

/-! ### `alloc_inode` -/

def freeNumber : List Nat → DiskScript (Option Nat)
  | [] => return none
  | inum :: rest => do
      match ← getInode inum with
      | none => return some inum
      | some _ => freeNumber rest

def allocInode (uninit : Uninit) (type : UInt32) : DiskScript Nat := do
  match ← freeNumber (List.range' 1 (sb.ninodes - 1)) with
  | some inum => do
      putInode inum { uninit.ino with type := type.toUInt16, size := 0 }
      return inum
  | none => return 0

def create (uninit : Uninit) (type : FileType) : DiskScript Nat := allocInode uninit type.code

/-! ### `read_file` and `getattr` -/

def readDirect (ino : Inode) (bufOut : Memory) (limit : Nat) : DiskScript Memory :=
  (List.range limit).foldlM
    (fun bufOut i => do
      let id ← Script.ofOption (ino.block i)
      readBlock id bufOut (blockSize * i))
    bufOut

def readIndirect (indirectBlocks bufOut : Memory) (limit count : Nat) : DiskScript Memory :=
  (List.range count).foldlM
    (fun bufOut i => do
      let id ← Script.ofOption (indirectEntry indirectBlocks i)
      readBlock id bufOut (blockSize * (limit + i)))
    bufOut

def readFile (uninit : Uninit) (inum : Nat) : DiskScript (Option (Memory × Int)) := do
  match ← getInode inum with
  | none => return none
  | some ino => do
      let blockCount := ceil ino.size.toNat blockSize
      let size := Int.bmod ino.size.toNat (2 ^ 32)
      let limit := min blockCount ndirect
      let bufOut ← readDirect ino uninit.bufOut limit
      if blockCount ≤ ndirect then return some (bufOut, size)
      else do
        let indirectBlocks ← readBlock ino.indexBlock uninit.indirectBlocks 0
        let bufOut ← readIndirect indirectBlocks bufOut limit (blockCount - limit)
        return some (bufOut, size)

def get (uninit : Uninit) (id : Nat) : DiskScript (List UInt8) := do
  match ← readFile uninit (maskId id) with
  | none => return []
  | some (cbuf, size) =>
      if size = 0 then return []
      else if size < 0 then Script.fail
      else return (List.range size.toNat).map cbuf

def inodeAttr (inum : Nat) (a : Attr) : DiskScript Attr := do
  match ← getInode inum with
  | none => return { a with type := 0, size := 0 }
  | some ino =>
      return { type := UInt32.ofNat (toUint32 (Int.bmod ino.type.toNat (2 ^ 16)))
               atime := ino.atime
               mtime := ino.mtime
               ctime := ino.ctime
               size := ino.size }

def getattr (id : Nat) : DiskScript Attr :=
  inodeAttr (maskId id) { type := 0, atime := 0, mtime := 0, ctime := 0, size := 0 }

/-! ### `remove_file` -/

def freeInode (inum : Nat) : DiskScript Unit := do
  match ← getInode inum with
  | none => return ()
  | some ino => putInode inum { ino with type := 0, size := 0 }

def removeFile (uninit : Uninit) (inum : Nat) : DiskScript Unit := do
  match ← getInode inum with
  | none => return ()
  | some ino => do
      let originalBlock := ceil ino.size.toNat blockSize
      let limit := min originalBlock ndirect
      (List.range limit).foldlM (fun _ id => freeBlock id) ()
      (if ndirect < originalBlock then do
        let indirectBlocks ← readBlock ino.indexBlock uninit.indirectBlocks 0
        freeIndirect indirectBlocks 0 (originalBlock - limit)
      else return () : DiskScript Unit)
      freeInode inum

def remove (uninit : Uninit) (id : Nat) : DiskScript Unit := removeFile uninit (maskId id)

/-! ### Handlers -/

def serve : Request → DiskScript Reply
  | .create type uninit => do
      let id ← create uninit type
      return .created id
  | .put id buf uninit => do
      put uninit id buf
      return .done
  | .get id uninit => do
      let buf ← get uninit id
      return .data buf
  | .getattr id => do
      let a ← getattr id
      return .attr a
  | .remove id uninit => do
      remove uninit id
      return .done

theorem alone_freeNumber (d : Disk) (inums : List Nat) :
    (freeNumber inums).alone Disk.act d =
      some (d, inums.find? (fun inum => (FileSystem.getInode d inum).isNone)) := by
  induction inums with
  | nil => rfl
  | cons inum rest ih =>
      unfold freeNumber
      rw [Script.alone_bind, alone_getInode, Option.bind_some, List.find?_cons]
      cases FileSystem.getInode d inum with
      | none => rfl
      | some ino => exact ih

theorem alone_create (d : Disk) (uninit : Uninit) (type : FileType) :
    (create uninit type).alone Disk.act d = some (FileSystem.create d uninit type).swap := by
  unfold create allocInode FileSystem.create FileSystem.allocInode
  rw [Script.alone_bind, alone_freeNumber, Option.bind_some]
  cases (List.range' 1 (sb.ninodes - 1)).find?
      (fun inum => (FileSystem.getInode d inum).isNone) with
  | none => rfl
  | some inum => rfl

theorem alone_readDirect (d : Disk) (ino : Inode) (bufOut : Memory) (limit : Nat) :
    (readDirect ino bufOut limit).alone Disk.act d =
      (FileSystem.readDirect d ino bufOut limit).map (fun bufOut => (d, bufOut)) := by
  unfold readDirect FileSystem.readDirect
  apply Script.alone_foldlM_reading
  intro bufOut i
  rw [Script.alone_bind, Script.alone_ofOption]
  cases ino.block i with
  | none => rfl
  | some id => rfl

theorem alone_readIndirect (d : Disk) (indirectBlocks bufOut : Memory) (limit count : Nat) :
    (readIndirect indirectBlocks bufOut limit count).alone Disk.act d =
      (FileSystem.readIndirect d indirectBlocks bufOut limit count).map
        (fun bufOut => (d, bufOut)) := by
  unfold readIndirect FileSystem.readIndirect
  apply Script.alone_foldlM_reading
  intro bufOut i
  rw [Script.alone_bind, Script.alone_ofOption]
  cases indirectEntry indirectBlocks i with
  | none => rfl
  | some id => rfl

theorem alone_readFile (d : Disk) (uninit : Uninit) (inum : Nat) :
    (readFile uninit inum).alone Disk.act d =
      (FileSystem.readFile d uninit inum).map (fun out => (d, out)) := by
  unfold readFile FileSystem.readFile
  rw [Script.alone_bind, alone_getInode, Option.bind_some]
  cases FileSystem.getInode d inum with
  | none => rfl
  | some ino =>
      dsimp only
      rw [Script.alone_bind, alone_readDirect]
      cases FileSystem.readDirect d ino uninit.bufOut (min (ceil ino.size.toNat blockSize) ndirect) with
      | none => rfl
      | some bufOut =>
          simp only [Option.map_some, Option.bind_some, Option.bind_eq_bind]
          split
          · rfl
          · rw [Script.alone_bind, alone_readBlock, Option.bind_some, Script.alone_bind,
              alone_readIndirect]
            cases FileSystem.readIndirect d (d.readBlock ino.indexBlock uninit.indirectBlocks 0) bufOut
                (min (ceil ino.size.toNat blockSize) ndirect)
                (ceil ino.size.toNat blockSize - min (ceil ino.size.toNat blockSize) ndirect) with
            | none => rfl
            | some bufOut => rfl

theorem alone_get (d : Disk) (uninit : Uninit) (id : Nat) :
    (get uninit id).alone Disk.act d =
      (FileSystem.get d uninit id).map (fun buf => (d, buf)) := by
  unfold get FileSystem.get
  rw [Script.alone_bind, alone_readFile]
  cases FileSystem.readFile d uninit (maskId id) with
  | none => rfl
  | some out =>
      cases out with
      | none => rfl
      | some out =>
          simp only [Option.map_some, Option.bind_some, Option.bind_eq_bind]
          split
          · rfl
          · split <;> rfl

theorem alone_getattr (d : Disk) (id : Nat) :
    (getattr id).alone Disk.act d = some (d, FileSystem.getattr d id) := by
  unfold getattr inodeAttr FileSystem.getattr FileSystem.inodeAttr
  rw [Script.alone_bind, alone_getInode, Option.bind_some]
  cases FileSystem.getInode d (maskId id) with
  | none => rfl
  | some ino => rfl

theorem alone_freeInode (d : Disk) (inum : Nat) :
    (freeInode inum).alone Disk.act d = some (FileSystem.freeInode d inum, ()) := by
  unfold freeInode FileSystem.freeInode
  rw [Script.alone_bind, alone_getInode, Option.bind_some]
  cases FileSystem.getInode d inum with
  | none => rfl
  | some ino => rfl

theorem alone_freeBlocks (ids : List Nat) (d : Disk) :
    (ids.foldlM (fun _ id => freeBlock id) ()).alone Disk.act d =
      some (ids.foldl FileSystem.freeBlock d, ()) := by
  rw [Script.alone_foldlM_unit]
  have freed : ids.foldlM (fun d id => ((freeBlock id).alone Disk.act d).map Prod.fst) d =
      some (ids.foldl FileSystem.freeBlock d) :=
    Loop.foldlM_eq_foldl (fun _d _id _member => rfl) d
  rw [freed]
  rfl

theorem alone_remove (d : Disk) (uninit : Uninit) (id : Nat) :
    (remove uninit id).alone Disk.act d =
      (FileSystem.remove d uninit id).map (fun d => (d, ())) := by
  unfold remove removeFile FileSystem.remove FileSystem.removeFile
  rw [Script.alone_bind, alone_getInode, Option.bind_some]
  cases FileSystem.getInode d (maskId id) with
  | none => rfl
  | some ino =>
      dsimp only
      rw [Script.alone_bind, alone_freeBlocks, Option.bind_some, Script.alone_bind]
      dsimp only
      split
      · rw [Script.alone_bind, alone_readBlock, Option.bind_some, alone_freeIndirect]
        dsimp only
        cases FileSystem.freeIndirect _ _ _ _ with
        | none => rfl
        | some after =>
            rw [Option.map_some, Option.bind_some, alone_freeInode]
            rfl
      · rw [Script.pure_eq, Script.alone_ret, Option.bind_some, alone_freeInode]
        rfl

/-- With nothing in between, the sequence of accesses is the handler. -/
theorem alone_serve (d : Disk) (request : Request) :
    (serve request).alone Disk.act d = answer d request := by
  cases request with
  | create type uninit =>
      dsimp only [serve, answer]
      rw [Script.alone_bind, alone_create]
      rfl
  | put id buf uninit =>
      dsimp only [serve, answer]
      rw [Script.alone_bind, alone_put]
      cases FileSystem.put d uninit id buf <;> rfl
  | get id uninit =>
      dsimp only [serve, answer]
      rw [Script.alone_bind, alone_get]
      cases FileSystem.get d uninit id <;> rfl
  | getattr id =>
      dsimp only [serve, answer]
      rw [Script.alone_bind, alone_getattr]
      rfl
  | remove id uninit =>
      dsimp only [serve, answer]
      rw [Script.alone_bind, alone_remove]
      cases FileSystem.remove d uninit id <;> rfl

end Stepwise

end CseLab.FileSystem
