import CseLab.FileSystem.InodeManager
import CseLab.FileSystem.Allocator

/-! The inode table as a map from inode numbers to inode records: reading a
record back after writing it, and the records and blocks a write leaves alone. -/

namespace CseLab.FileSystem

open ByteMemory

/-! ### Records in memory -/

theorem ndirect_eq : ndirect = 32 := rfl

theorem Inode.storeBlocks_outside (ino : Inode) (memory : Memory) (base count : Nat)
    {address : Nat} (outside : address < base + 20 ∨ base + 20 + 4 * count ≤ address) :
    ino.storeBlocks memory base count address = memory address := by
  induction count with
  | zero => rfl
  | succ count ih =>
      unfold Inode.storeBlocks
      rw [store32_outside (by omega)]
      exact ih (by omega)

theorem Inode.load32_storeBlocks (ino : Inode) (memory : Memory) (base : Nat)
    {count index : Nat} (below : index < count) :
    load32 (ino.storeBlocks memory base count) (base + 20 + 4 * index) =
      ino.blocks[index]?.getD 0 := by
  induction count with
  | zero => omega
  | succ count ih =>
      unfold Inode.storeBlocks
      by_cases last : index = count
      · rw [last, load32_store32]
      · rw [load32_store32_disjoint (by omega)]
        exact ih (by omega)

theorem Inode.store_outside (ino : Inode) (memory : Memory) (base : Nat) {address : Nat}
    (outside : address < base ∨ base + 152 ≤ address) :
    ino.store memory base address = memory address := by
  unfold Inode.store
  rw [Inode.storeBlocks_outside ino _ base (ndirect + 1) (by rw [ndirect_eq]; omega),
    store32_outside (by omega), store32_outside (by omega), store32_outside (by omega),
    store32_outside (by omega), store16_outside (by omega)]

theorem Inode.storeBlocks_congr {left right : Inode} {memory other : Memory} {base count : Nat}
    (same : ∀ n, n < count → left.blocks[n]?.getD 0 = right.blocks[n]?.getD 0) {address : Nat}
    (inside : base + 20 ≤ address) (below : address < base + 20 + 4 * count) :
    left.storeBlocks memory base count address = right.storeBlocks other base count address := by
  induction count with
  | zero => omega
  | succ count ih =>
      unfold Inode.storeBlocks
      rw [same count (Nat.lt_succ_self count)]
      by_cases last : base + 20 + 4 * count ≤ address
      · unfold store32
        rw [if_pos ⟨last, by omega⟩, if_pos ⟨last, by omega⟩]
      · rw [store32_outside (by omega), store32_outside (by omega)]
        exact ih (fun n below => same n (by omega)) (by omega)

theorem Inode.store_congr {left right : Inode} {memory other : Memory} {base address : Nat}
    (type : left.type = right.type) (atime : left.atime = right.atime)
    (mtime : left.mtime = right.mtime) (ctime : left.ctime = right.ctime)
    (blocks : ∀ n, n < ndirect → left.blocks[n]?.getD 0 = right.blocks[n]?.getD 0)
    (padding : ∀ k, k < 2 → memory (base + 2 + k) = other (base + 2 + k))
    (lower : base ≤ address) (upper : address < base + 148)
    (notSize : address < base + 4 ∨ base + 8 ≤ address) :
    left.store memory base address = right.store other base address := by
  unfold Inode.store
  by_cases early : address < base + 20
  · rw [Inode.storeBlocks_outside _ _ _ _ (.inl early), Inode.storeBlocks_outside _ _ _ _ (.inl early),
      type, atime, mtime, ctime]
    unfold store32 store16
    split_ifs
    · rfl
    · rfl
    · rfl
    · omega
    · rfl
    · obtain ⟨k, rfl⟩ : ∃ k, address = base + 2 + k := ⟨address - (base + 2), by omega⟩
      exact padding k (by omega)
  · unfold Inode.storeBlocks
    rw [store32_outside (by rw [ndirect_eq]; omega), store32_outside (by rw [ndirect_eq]; omega)]
    exact Inode.storeBlocks_congr blocks (by omega) (by rw [ndirect_eq]; omega)


theorem Inode.load_congr {left right : Memory} {base : Nat}
    (same : ∀ address, base ≤ address → address < base + 152 → left address = right address) :
    Inode.load left base = Inode.load right base := by
  have words : ∀ index : Fin (ndirect + 1), load32 left (base + 20 + 4 * index.val) =
      load32 right (base + 20 + 4 * index.val) := by
    intro index
    have bound : index.val < 33 := index.isLt
    exact load32_congr _ (fun address lower upper => same address (by omega) (by omega))
  unfold Inode.load
  rw [load16_congr base (fun address lower upper => same address lower (by omega)),
    load32_congr (base + 4) (fun address lower upper => same address (by omega) (by omega)),
    load32_congr (base + 8) (fun address lower upper => same address (by omega) (by omega)),
    load32_congr (base + 12) (fun address lower upper => same address (by omega) (by omega)),
    load32_congr (base + 16) (fun address lower upper => same address (by omega) (by omega)),
    funext words]

private theorem load32_storeBlocks_before (ino : Inode) (memory : Memory) {base other : Nat}
    (before : other + 4 ≤ base + 20) :
    load32 (ino.storeBlocks memory base (ndirect + 1)) other = load32 memory other :=
  load32_congr other (fun _address _lower _upper =>
    ino.storeBlocks_outside memory base (ndirect + 1) (Or.inl (by omega)))

theorem Inode.load_store (ino : Inode) (memory : Memory) (base : Nat) :
    Inode.load (ino.store memory base) base = ino := by
  apply Inode.ext
  · change load16 (ino.store memory base) base = ino.type
    have first : ∀ address, base ≤ address → address < base + 2 →
        ino.store memory base address = store16 memory base ino.type address := by
      intro address lower upper
      unfold Inode.store
      rw [Inode.storeBlocks_outside _ _ base (ndirect + 1) (by omega),
        store32_outside (by omega), store32_outside (by omega), store32_outside (by omega),
        store32_outside (by omega)]
    rw [load16_congr base first, load16_store16]
  · change load32 (ino.store memory base) (base + 4) = ino.size
    unfold Inode.store
    rw [load32_storeBlocks_before ino _ (by omega), load32_store32_disjoint (by omega),
      load32_store32_disjoint (by omega), load32_store32_disjoint (by omega), load32_store32]
  · change load32 (ino.store memory base) (base + 8) = ino.atime
    unfold Inode.store
    rw [load32_storeBlocks_before ino _ (by omega), load32_store32_disjoint (by omega),
      load32_store32_disjoint (by omega), load32_store32]
  · change load32 (ino.store memory base) (base + 12) = ino.mtime
    unfold Inode.store
    rw [load32_storeBlocks_before ino _ (by omega), load32_store32_disjoint (by omega),
      load32_store32]
  · change load32 (ino.store memory base) (base + 16) = ino.ctime
    unfold Inode.store
    rw [load32_storeBlocks_before ino _ (by omega), load32_store32]
  · apply Vector.ext
    intro index below
    change (Vector.ofFn _)[index] = ino.blocks[index]
    rw [Vector.getElem_ofFn]
    change load32 (ino.storeBlocks _ base (ndirect + 1)) (base + 20 + 4 * index) = _
    rw [Inode.load32_storeBlocks ino _ base below, Vector.getElem?_eq_getElem below,
      Option.getD_some]

/-! ### The table -/

def inodeBase (inum : Nat) : Nat := sizeofInode * (inum % ipb)

theorem inodeBase_eq (inum : Nat) : inodeBase inum = 152 * (inum % 3) := rfl

theorem getInode_eq (d : Disk) (inum : Nat) :
    getInode d inum =
      if 1024 ≤ inum then none
      else
        let ino := Inode.load (d.blocks (11 + inum / 3)) (inodeBase inum)
        if ino.type = 0 then none else some ino := by
  unfold getInode
  change (if 1024 ≤ inum then none else _) = _
  by_cases outside : 1024 ≤ inum
  · rw [if_pos outside, if_pos outside]
  · rw [if_neg outside, if_neg outside, iblock_eq]
    change (if (Inode.load _ (inodeBase inum)).type = 0 then none
      else some (Inode.load _ (inodeBase inum))) = _
    have same : Inode.load (d.readBlock (11 + inum / 3) (fun _ => 0) 0) (inodeBase inum) =
        Inode.load (d.blocks (11 + inum / 3)) (inodeBase inum) := by
      apply Inode.load_congr
      intro address lower upper
      rw [inodeBase_eq] at lower upper
      rw [Disk.readBlock_apply, if_pos ⟨by omega, by omega, by omega⟩, Nat.sub_zero]
    rw [same]

theorem getInode_lt {d : Disk} {inum : Nat} {ino : Inode} (found : getInode d inum = some ino) :
    inum < 1024 := by
  rw [getInode_eq] at found
  by_contra outside
  rw [if_pos (by omega)] at found
  cases found

theorem getInode_type {d : Disk} {inum : Nat} {ino : Inode} (found : getInode d inum = some ino) :
    ino.type ≠ 0 := by
  have bound := getInode_lt found
  rw [getInode_eq, if_neg (by omega)] at found
  simp only at found
  split at found
  · cases found
  · rename_i present
    cases found
    exact present

theorem getInode_congr_bytes {left right : Disk} {inum : Nat}
    (same : ∀ address, inodeBase inum ≤ address → address < inodeBase inum + 152 →
      left.blocks (11 + inum / 3) address = right.blocks (11 + inum / 3) address) :
    getInode left inum = getInode right inum := by
  rw [getInode_eq, getInode_eq, Inode.load_congr same]

theorem getInode_congr {left right : Disk} {inum : Nat}
    (same : left.blocks (11 + inum / 3) = right.blocks (11 + inum / 3)) :
    getInode left inum = getInode right inum :=
  getInode_congr_bytes (fun address _lower _upper => congrFun same address)

theorem putInode_other (d : Disk) {inum b : Nat} (ino : Inode) (different : b ≠ 11 + inum / 3) :
    (putInode d inum ino).blocks b = d.blocks b := by
  unfold putInode
  rw [iblock_eq]
  exact Disk.writeBlock_other d _ different

theorem putInode_apply (d : Disk) {inum : Nat} (ino : Inode) (inTable : inum < 1024)
    {address : Nat} (inBlock : address < 512) :
    (putInode d inum ino).blocks (11 + inum / 3) address =
      ino.store (d.readBlock (11 + inum / 3) (fun _ => 0) 0) (inodeBase inum) address := by
  unfold putInode
  rw [iblock_eq]
  change (Disk.writeBlock d _ (ino.store _ (inodeBase inum))).blocks _ address = _
  rw [Disk.writeBlock_apply, if_pos ⟨by omega, rfl, inBlock⟩]

private theorem load_putInode (d : Disk) {inum : Nat} (ino : Inode) (inTable : inum < 1024) :
    Inode.load ((putInode d inum ino).blocks (11 + inum / 3)) (inodeBase inum) = ino := by
  have bytes : ∀ address, inodeBase inum ≤ address → address < inodeBase inum + 152 →
      (putInode d inum ino).blocks (11 + inum / 3) address =
        ino.store (d.readBlock (11 + inum / 3) (fun _ => 0) 0) (inodeBase inum) address := by
    intro address lower upper
    rw [inodeBase_eq] at upper
    exact putInode_apply d ino inTable (by omega)
  rw [Inode.load_congr bytes, Inode.load_store]

theorem getInode_putInode_self (d : Disk) {inum : Nat} (ino : Inode) (inTable : inum < 1024) :
    getInode (putInode d inum ino) inum = if ino.type = 0 then none else some ino := by
  rw [getInode_eq, if_neg (by omega), load_putInode d ino inTable]

theorem putInode_record_other (d : Disk) {inum other : Nat} (ino : Inode) (inTable : inum < 1024)
    (different : other ≠ inum) {address : Nat} (lower : inodeBase other ≤ address)
    (upper : address < inodeBase other + 152) :
    (putInode d inum ino).blocks (11 + other / 3) address = d.blocks (11 + other / 3) address := by
  by_cases sameBlock : other / 3 = inum / 3
  · rw [inodeBase_eq] at lower upper
    rw [sameBlock, putInode_apply d ino inTable (by omega),
      Inode.store_outside ino _ _ (by rw [inodeBase_eq]; omega), Disk.readBlock_apply,
      if_pos ⟨by omega, by omega, by omega⟩, Nat.sub_zero]
  · rw [putInode_other d ino (by omega)]

theorem getInode_putInode_other (d : Disk) {inum other : Nat} (ino : Inode)
    (inTable : inum < 1024) (different : other ≠ inum) :
    getInode (putInode d inum ino) other = getInode d other :=
  getInode_congr_bytes (fun _address lower upper =>
    putInode_record_other d ino inTable different lower upper)

end CseLab.FileSystem
