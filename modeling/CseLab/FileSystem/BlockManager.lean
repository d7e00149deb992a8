import CseLab.Lib.ByteMemory
import Mathlib.Tactic

/-! The disk and block layers of `inode_manager.cc`: a byte array of
`BLOCK_NUM` blocks, and the allocator that keeps one mark per block in the
bitmap blocks. Block numbers are `uint32_t` values, written as naturals. -/

namespace CseLab.FileSystem

open ByteMemory

def diskSize : Nat := 1024 * 1024 * 16

def blockSize : Nat := 512

def blockNum : Nat := diskSize / blockSize

def inodeNum : Nat := 1024

/-- `sizeof(struct inode)`: a padded `short`, four words and 33 block addresses. -/
def sizeofInode : Nat := 152

def ipb : Nat := blockSize / sizeofInode

def bpb : Nat := blockSize * 8

def iblock (i nblocks : Nat) : Nat := nblocks / bpb + i / ipb + 3

def bblock (b : Nat) : Nat := b / bpb + 2

def ndirect : Nat := 32

def nindirect : Nat := blockSize / 4

def maxfile : Nat := ndirect + nindirect

structure Superblock where
  size : Nat
  nblocks : Nat
  ninodes : Nat

/-- The superblock the `block_manager` constructor formats; nothing changes it later. -/
def sb : Superblock :=
  { size := blockSize * blockNum
    nblocks := blockNum
    ninodes := inodeNum }

structure Disk where
  blocks : Nat → Memory

def Disk.fresh : Disk := ⟨fun _ _ => 0⟩

def Disk.readBlock (d : Disk) (id : Nat) (buf : Memory) (offset : Nat) : Memory :=
  if id < blockNum then memcpy buf offset (d.blocks id) blockSize else buf

def Disk.writeBlock (d : Disk) (id : Nat) (buf : Memory) : Disk :=
  if id < blockNum then
    ⟨Function.update d.blocks id (memcpy (d.blocks id) 0 buf blockSize)⟩
  else d

/-- The test `(b << id_3) & 0x80` of `alloc_block`. The byte index is a `uint8_t`. -/
def notFree (bitMap : Memory) (j : Nat) : Bool :=
  let id2 := j / 8 % 256
  let b := bitMap id2
  let id3 := j % 8
  ((b.toNat <<< id3) &&& 0x80) != 0

def markBit (bitMap : Memory) (j : Nat) : Memory :=
  let id2 := j / 8 % 256
  let b := bitMap id2
  let id3 := j % 8
  Function.update bitMap id2 (UInt8.ofNat ((1 <<< (7 - id3)) ||| b.toNat))

/-- The two nested loops of `alloc_block`: `count` bitmap blocks are left to
scan, the next one is `i`, and its scan starts at bit `j`. The buffer is filled
by every `read_block`, since each bitmap block is on the disk. -/
def allocLoop (d : Disk) : (count i j : Nat) → Nat × Disk
  | 0, _, _ => (0, d)
  | count + 1, i, j =>
      let bitMap := d.readBlock i (fun _ => 0) 0
      match (List.range' j (bpb - j)).find? (fun bit => !notFree bitMap bit) with
      | some bit => ((i - 2) * bpb + bit, d.writeBlock i (markBit bitMap bit))
      | none => allocLoop d count (i + 1) 0

def allocBlock (d : Disk) : Nat × Disk :=
  let id := iblock sb.ninodes sb.nblocks
  let i := bblock id
  let limit := bblock sb.nblocks
  let j := id % bpb
  allocLoop d (limit - i) i j

/-- The bit position is a `uint8_t`, and the byte is replaced by the value of
the logical `&&`. A block number off the disk reads nothing and writes nothing. -/
def freeBlock (d : Disk) (id : Nat) : Disk :=
  let i := bblock id
  let bitMap := d.readBlock i (fun _ => 0) 0
  let j := id % bpb % 256
  let id2 := j / 8
  let b := bitMap id2
  let id3 := j % 8
  let mask : Int := ~~~((1 : Int) <<< (7 - id3))
  d.writeBlock i (Function.update bitMap id2 (if mask ≠ 0 ∧ b ≠ 0 then 1 else 0))

end CseLab.FileSystem
