import CseLab.FileSystem.WriteFile

/-! Which states the handlers may be trusted in, and what one handler leaves of
the files it is not about. The last inode is set apart: its record lies in the
first block that `alloc_block` hands out, so it is a file only until that block
is marked. -/

namespace CseLab.FileSystem

open ByteMemory

/-- Inode `inum` is in use, and its record is not part of another file's data. -/
structure FileAt (d : Disk) (inum : Nat) (ino : Inode) : Prop where
  found : getInode d inum = some ino
  last : inum = inodeNum - 1 → marked d firstData = false

structure Consistent (d : Disk) : Prop where
  owned : ∀ inum ino, FileAt d inum ino → Owned d ino
  disjoint : ∀ left right leftIno rightIno, left ≠ right →
    FileAt d left leftIno → FileAt d right rightIno →
    ∀ b ∈ references d leftIno, b ∉ references d rightIno

theorem FileAt.unique {d : Disk} {inum : Nat} {left right : Inode} (first : FileAt d inum left)
    (second : FileAt d inum right) : left = right :=
  Option.some.inj (first.found.symm.trans second.found)

theorem Consistent.record_not_referenced {d : Disk} (consistent : Consistent d)
    {inum other : Nat} {ino otherIno : Inode} (file : FileAt d inum ino)
    (owner : FileAt d other otherIno) : 11 + inum / 3 ∉ references d otherIno := by
  intro member
  have owned := consistent.owned other otherIno owner
  have lower := (owned.inData _ member).1
  have below := getInode_lt file.found
  have isLast : inum = inodeNum - 1 := by
    change inum = 1023
    omega
  have clear := file.last isLast
  have marks := owned.marks _ member
  have lastRecord : 11 + inum / 3 = firstData := by rw [isLast]; rfl
  rw [lastRecord, clear] at marks
  cases marks

/-! ### Frames -/

/-- Every file but `inum` has the inode and the blocks it had, still marked. -/
structure Untouched (d : Disk) (inum : Nat) (after : Disk) : Prop where
  files : ∀ other ino, other ≠ inum → (FileAt after other ino ↔ FileAt d other ino)
  blocks : ∀ other ino, other ≠ inum → FileAt d other ino →
    ∀ b ∈ references d ino, after.blocks b = d.blocks b
  marks : ∀ other ino, other ≠ inum → FileAt d other ino →
    ∀ b ∈ references d ino, marked after b = true

namespace Untouched

variable {d after : Disk} {inum : Nat}

theorem references_eq (untouched : Untouched d inum after) {other : Nat} {ino : Inode}
    (different : other ≠ inum) (file : FileAt d other ino) :
    references after ino = references d ino :=
  references_congr (untouched.blocks other ino different file)

theorem contents_eq (untouched : Untouched d inum after) {other : Nat} {ino : Inode}
    (different : other ≠ inum) (file : FileAt d other ino) :
    contents after ino = contents d ino :=
  contents_congr (untouched.blocks other ino different file)

private theorem owned (untouched : Untouched d inum after) (consistent : Consistent d)
    {other : Nat} {ino : Inode} (different : other ≠ inum) (file : FileAt d other ino) :
    Owned after ino := by
  have was := consistent.owned other ino file
  have same := untouched.blocks other ino different file
  have sameRefs := untouched.references_eq different file
  refine ⟨⟨was.size_le, ?_, ?_, ?_⟩, ?_⟩
  · rw [sameRefs]
    exact was.inData
  · intro m n belowM belowN equal
    rw [dataRef_congr belowM same, dataRef_congr belowN same] at equal
    exact was.injective m n belowM belowN equal
  · intro indirect n below
    rw [dataRef_congr below same]
    exact was.index_ne indirect n below
  · rw [sameRefs]
    exact untouched.marks other ino different file

theorem consistent (untouched : Untouched d inum after) (was : Consistent d)
    (own : ∀ ino, FileAt after inum ino → Owned after ino)
    (apart : ∀ ino, FileAt after inum ino → ∀ other otherIno, other ≠ inum →
      FileAt d other otherIno → ∀ b ∈ references after ino, b ∉ references d otherIno) :
    Consistent after := by
  refine ⟨?_, ?_⟩
  · intro other ino file
    by_cases here : other = inum
    · subst here
      exact own ino file
    · exact untouched.owned was here ((untouched.files other ino here).mp file)
  · intro left right leftIno rightIno different leftFile rightFile b member
    by_cases leftHere : left = inum
    · subst leftHere
      have before := (untouched.files right rightIno different.symm).mp rightFile
      rw [untouched.references_eq different.symm before]
      exact apart leftIno leftFile right rightIno different.symm before b member
    · have leftBefore := (untouched.files left leftIno leftHere).mp leftFile
      rw [untouched.references_eq leftHere leftBefore] at member
      by_cases rightHere : right = inum
      · subst rightHere
        intro shared
        exact apart rightIno rightFile left leftIno leftHere leftBefore b shared member
      · have rightBefore := (untouched.files right rightIno rightHere).mp rightFile
        rw [untouched.references_eq rightHere rightBefore]
        exact was.disjoint left right leftIno rightIno different leftBefore rightBefore b member

end Untouched

theorem getattr_of_file {d : Disk} {id : Nat} {ino : Inode} (file : FileAt d (maskId id) ino) :
    (getattr d id).size = ino.size ∧
      (getattr d id).type = UInt32.ofNat (toUint32 (Int.bmod ino.type.toNat (2 ^ 16))) := by
  unfold getattr inodeAttr
  rw [file.found]
  exact ⟨rfl, rfl⟩

/-! ### `create` -/

/-- The last inode, when it is the one to hand out, does not lie in data. -/
def CreateOk (d : Disk) : Prop :=
  getInode d (inodeNum - 1) = none →
    (∀ inum, 0 < inum → inum < inodeNum - 1 → getInode d inum ≠ none) →
    marked d firstData = false

theorem allocInode_spec (d : Disk) (uninit : Uninit) (type : UInt32) :
    allocInode d uninit type = (0, d) ∨
      ∃ inum, 0 < inum ∧ inum < 1024 ∧ getInode d inum = none ∧
        (∀ smaller, 0 < smaller → smaller < inum → getInode d smaller ≠ none) ∧
        allocInode d uninit type =
          (inum, putInode d inum { uninit.ino with type := type.toUInt16, size := 0 }) := by
  unfold allocInode
  cases search : (List.range' 1 (sb.ninodes - 1)).find?
      (fun inum => (getInode d inum).isNone) with
  | none => exact Or.inl rfl
  | some inum =>
      obtain ⟨free, inside, taken⟩ := List.find?_range'_eq_some.mp search
      rw [List.mem_range'_1] at inside
      change 1 ≤ inum ∧ inum < 1 + (1024 - 1) at inside
      refine Or.inr ⟨inum, by omega, by omega, Option.isNone_iff_eq_none.mp free, ?_, rfl⟩
      intro smaller positive below missing
      have isTaken := taken smaller positive below
      rw [missing] at isTaken
      cases isTaken

private theorem putInode_untouched {d : Disk} (consistent : Consistent d) {inum : Nat}
    (ino : Inode) (inTable : inum < 1024)
    (last : inum = inodeNum - 1 → marked d firstData = false) :
    Untouched d inum (putInode d inum ino) := by
  have marks : ∀ b, b < 32768 → marked (putInode d inum ino) b = marked d b := by
    intro b small
    apply marked_congr
    apply putInode_other
    rw [bblock_eq]
    omega
  refine ⟨?_, ?_, ?_⟩
  · intro other otherIno different
    have first := marks firstData (by rw [firstData_eq]; omega)
    constructor
    · rintro ⟨found, clear⟩
      rw [getInode_putInode_other d ino inTable different] at found
      rw [first] at clear
      exact ⟨found, clear⟩
    · rintro ⟨found, clear⟩
      rw [← getInode_putInode_other d ino inTable different] at found
      rw [← first] at clear
      exact ⟨found, clear⟩
  · intro other otherIno different file b member
    apply putInode_other
    rintro rfl
    have owned := consistent.owned other otherIno file
    have lower := (owned.inData _ member).1
    have isLast : inum = inodeNum - 1 := by
      change inum = 1023
      omega
    have wasMarked := owned.marks _ member
    have lastRecord : 11 + inum / 3 = firstData := by rw [isLast]; rfl
    rw [lastRecord, last isLast] at wasMarked
    cases wasMarked
  · intro other otherIno different file b member
    have owned := consistent.owned other otherIno file
    rw [marks b (owned.inData b member).2]
    exact owned.marks b member

theorem references_empty {d : Disk} {ino : Inode} (empty : ino.size = 0) :
    references d ino = [] := by
  unfold references fileBlocks
  rw [empty]
  rfl

theorem owned_empty {d : Disk} {ino : Inode} (empty : ino.size = 0) : Owned d ino := by
  have none := references_empty (d := d) empty
  have zero : fileBlocks ino = 0 := by
    unfold fileBlocks
    rw [empty]
    rfl
  refine ⟨⟨?_, ?_, ?_, ?_⟩, ?_⟩
  · rw [empty]
    decide
  · rw [none]
    intro b member
    cases member
  · intro m n belowM
    omega
  · intro indirect
    omega
  · rw [none]
    intro b member
    cases member

structure Created (d : Disk) (type : FileType) (inum : Nat) (after : Disk) : Prop where
  positive : 0 < inum
  inTable : inum < 1024
  fresh : getInode d inum = none
  untouched : Untouched d inum after
  consistent : Consistent after
  file : ∃ ino, FileAt after inum ino ∧ ino.type = type.code.toUInt16 ∧ ino.size = 0

theorem create_spec {d : Disk} (consistent : Consistent d) (uninit : Uninit) (type : FileType)
    (ok : CreateOk d) :
    create d uninit type = (0, d) ∨
      ∃ inum after, create d uninit type = (inum, after) ∧ Created d type inum after := by
  unfold create
  rcases allocInode_spec d uninit type.code with full |
    ⟨inum, positive, inTable, fresh, smaller, allocated⟩
  · exact Or.inl full
  · right
    have last : inum = inodeNum - 1 → marked d firstData = false := by
      rintro rfl
      exact ok fresh smaller
    have untouched := putInode_untouched consistent
      { uninit.ino with type := type.code.toUInt16, size := 0 } inTable last
    have nonzero : type.code.toUInt16 ≠ 0 := by
      cases type <;> decide
    have found := getInode_putInode_self d
      { uninit.ino with type := type.code.toUInt16, size := 0 } inTable
    rw [if_neg nonzero] at found
    refine ⟨inum, _, allocated, positive, inTable, fresh, untouched, ?_, ?_⟩
    · apply untouched.consistent consistent
      · intro ino file
        cases found.symm.trans file.found
        exact owned_empty rfl
      · intro ino file other otherIno _different _other b member
        cases found.symm.trans file.found
        rw [references_empty rfl] at member
        cases member
    · refine ⟨_, ⟨found, ?_⟩, rfl, rfl⟩
      intro isLast
      rw [marked_congr (putInode_other d _ (by rw [bblock_eq, firstData_eq]; omega))]
      exact last isLast

end CseLab.FileSystem
