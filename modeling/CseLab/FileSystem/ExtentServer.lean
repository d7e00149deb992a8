import CseLab.FileSystem.InodeManager
import CseLab.Lib.Transition

/-! `extent_server.cc` over the inode layer: the handlers, and the runs of a
server from its construction. -/

namespace CseLab.FileSystem

open ByteMemory

inductive FileType where
  | dir
  | file
deriving DecidableEq

def FileType.code : FileType → UInt32
  | .dir => 1
  | .file => 2

def maskId (id : Nat) : Nat := id % 2 ^ 31

/-- `buf.c_str()`: the bytes of the string, a zero, then whatever follows. -/
def cStr (buf : List UInt8) (uninit : Uninit) : Memory :=
  fun address =>
    if address < buf.length then buf[address]?.getD 0
    else if address = buf.length then 0
    else uninit.pastEnd address

def create (d : Disk) (uninit : Uninit) (type : FileType) : Nat × Disk :=
  allocInode d uninit type.code

def put (d : Disk) (uninit : Uninit) (id : Nat) (buf : List UInt8) : Option Disk :=
  writeFile d uninit (maskId id) (cStr buf uninit) (Int.bmod buf.length (2 ^ 32))

/-- A negative size makes `buf.assign` throw, which is `none` here as well. -/
def get (d : Disk) (uninit : Uninit) (id : Nat) : Option (List UInt8) := do
  match ← readFile d uninit (maskId id) with
  | none => some []
  | some (cbuf, size) =>
      if size = 0 then some []
      else if size < 0 then none
      else some ((List.range size.toNat).map cbuf)

def getattr (d : Disk) (id : Nat) : Attr :=
  inodeAttr d (maskId id) { type := 0, atime := 0, mtime := 0, ctime := 0, size := 0 }

def remove (d : Disk) (uninit : Uninit) (id : Nat) : Option Disk :=
  removeFile d uninit (maskId id)

inductive Request where
  | create (type : FileType) (uninit : Uninit)
  | put (id : Nat) (buf : List UInt8) (uninit : Uninit)
  | get (id : Nat) (uninit : Uninit)
  | getattr (id : Nat)
  | remove (id : Nat) (uninit : Uninit)

/-- The disk after a request; `none` where the handler leaves an array, or throws. -/
def serve (d : Disk) : Request → Option Disk
  | .create type uninit => some (create d uninit type).2
  | .put id buf uninit => put d uninit id buf
  | .get id uninit => (get d uninit id).map (fun _ => d)
  | .getattr _ => some d
  | .remove id uninit => remove d uninit id

def construct (uninit : Uninit) : Disk := (allocInode Disk.fresh uninit FileType.dir.code).2

end CseLab.FileSystem
