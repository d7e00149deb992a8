import CseLab.FileSystem.Store

/-! Who owns which block. The allocator starts its scan at the block of inode
`ninodes`, which with three inodes to a block is also the block of the last
inode: the first block ever allocated lies inside the inode table. -/

namespace CseLab.FileSystem

open ByteMemory Transition

inductive Operation where
  | allocInode (type : UInt32) (uninit : Uninit)
  | writeFile (inum : Nat) (buf : Memory) (size : Int) (uninit : Uninit)
  | readFile (inum : Nat) (uninit : Uninit)
  | removeFile (inum : Nat) (uninit : Uninit)
  | getattr (inum : Nat)

def perform (d : Disk) : Operation → Option Disk
  | .allocInode type uninit => some (allocInode d uninit type).2
  | .writeFile inum buf size uninit => writeFile d uninit inum buf size
  | .readFile inum uninit => (readFile d uninit inum).map (fun _ => d)
  | .removeFile inum uninit => removeFile d uninit inum
  | .getattr _ => some d

/-- The boot block, the superblock, the bitmap and the inode table. -/
def Reserved (b : Nat) : Prop :=
  b = 0 ∨ b = 1 ∨ (∃ c < blockNum, b = bblock c) ∨ ∃ inum < inodeNum, b = iblock inum sb.nblocks

/-- Every block in use is a data block of the disk, and it is in use once. -/
structure BlocksOwned (d : Disk) : Prop where
  inData : ∀ inum ino, getInode d inum = some ino → ∀ b ∈ references d ino,
    b < blockNum ∧ ¬Reserved b
  once : ∀ inum ino, getInode d inum = some ino → (references d ino).Nodup
  apart : ∀ left right leftIno rightIno, left ≠ right → getInode d left = some leftIno →
    getInode d right = some rightIno → ∀ b ∈ references d leftIno, b ∉ references d rightIno

/-- A `write_file` that is carried out and leaves a size other than zero. -/
def Fills (d : Disk) : Operation → Prop
  | .writeFile inum _ size _ => (getInode d inum).isSome ∧ size ≠ 0 ∧
      toUint32 (ceilInt size blockSize) ≤ maxfile
  | _ => False

instance (d : Disk) (operation : Operation) : Decidable (Fills d operation) :=
  match operation with
  | .writeFile _ _ _ _ => inferInstanceAs (Decidable (_ ∧ _ ∧ _))
  | .allocInode _ _ => inferInstanceAs (Decidable False)
  | .readFile _ _ => inferInstanceAs (Decidable False)
  | .removeFile _ _ => inferInstanceAs (Decidable False)
  | .getattr _ => inferInstanceAs (Decidable False)

/-! ### Before the first write -/

/-- No file has a block and no block is marked. -/
structure Unwritten (d : Disk) : Prop where
  empty : ∀ inum ino, getInode d inum = some ino → ino.size = 0
  clear : ∀ b, b < blockNum → marked d b = false

private theorem fileBlocks_zero {ino : Inode} (empty : ino.size = 0) : fileBlocks ino = 0 := by
  unfold fileBlocks
  rw [empty]
  rfl

theorem Unwritten.blocksOwned {d : Disk} (unwritten : Unwritten d) : BlocksOwned d := by
  have none : ∀ inum ino, getInode d inum = some ino → references d ino = [] :=
    fun inum ino found => references_empty (unwritten.empty inum ino found)
  refine ⟨?_, ?_, ?_⟩
  · intro inum ino found b member
    rw [none inum ino found] at member
    cases member
  · intro inum ino found
    rw [none inum ino found]
    exact List.nodup_nil
  · intro left right leftIno rightIno _different found _other b member
    rw [none left leftIno found] at member
    cases member

private theorem Unwritten.putInode {d : Disk} (unwritten : Unwritten d) {inum : Nat}
    (inTable : inum < 1024) {ino : Inode} (empty : ino.size = 0) :
    Unwritten (putInode d inum ino) := by
  refine ⟨?_, ?_⟩
  · intro other otherIno found
    by_cases here : other = inum
    · subst here
      rw [getInode_putInode_self d ino inTable] at found
      split at found
      · cases found
      · cases found
        exact empty
    · rw [getInode_putInode_other d ino inTable here] at found
      exact unwritten.empty other otherIno found
  · intro b onDisk
    change b < 32768 at onDisk
    rw [marked_congr (putInode_other d ino (by rw [bblock_eq]; omega))]
    exact unwritten.clear b onDisk

theorem Unwritten.fresh : Unwritten Disk.fresh := by
  refine ⟨?_, fun b _onDisk => marked_fresh b⟩
  intro inum ino found
  rw [getInode_fresh] at found
  cases found

private theorem Unwritten.allocInode {d : Disk} (unwritten : Unwritten d) (uninit : Uninit)
    (type : UInt32) : Unwritten (allocInode d uninit type).2 := by
  rcases allocInode_spec d uninit type with full | ⟨inum, -, inTable, -, -, allocated⟩
  · rw [full]
    exact unwritten
  · rw [allocated]
    exact unwritten.putInode inTable rfl

theorem Unwritten.construct (uninit : Uninit) : Unwritten (construct uninit) :=
  Unwritten.fresh.allocInode uninit _

private theorem writeFile_nothing {d : Disk} {inum : Nat} {ino : Inode} (uninit : Uninit)
    (buf : Memory) (found : getInode d inum = some ino) (empty : ino.size = 0) :
    writeFile d uninit inum buf 0 = some (putInode d inum { ino with size := 0 }) := by
  have zero : ceil ino.size.toNat blockSize = 0 := fileBlocks_zero empty
  have count : toUint32 (ceilInt 0 blockSize) = 0 := rfl
  unfold writeFile
  rw [found]
  simp only [zero, count]
  rfl

private theorem removeFile_empty {d : Disk} {inum : Nat} {ino : Inode} (uninit : Uninit)
    (found : getInode d inum = some ino) (empty : ino.size = 0) :
    removeFile d uninit inum = some (putInode d inum { ino with type := 0, size := 0 }) := by
  have zero : ceil ino.size.toNat blockSize = 0 := fileBlocks_zero empty
  unfold removeFile
  rw [found]
  simp only [zero]
  change some (freeInode d inum) = _
  unfold freeInode
  rw [found]

theorem Unwritten.perform {d after : Disk} {operation : Operation} (unwritten : Unwritten d)
    (idle : ¬Fills d operation) (done : perform d operation = some after) : Unwritten after := by
  cases operation with
  | allocInode type uninit =>
      cases done
      exact unwritten.allocInode uninit type
  | writeFile inum buf size uninit =>
      change writeFile d uninit inum buf size = some after at done
      cases found : getInode d inum with
      | none =>
          unfold writeFile at done
          rw [found] at done
          cases done
          exact unwritten
      | some ino =>
          have empty := unwritten.empty inum ino found
          by_cases large : maxfile < toUint32 (ceilInt size blockSize)
          · unfold writeFile at done
            rw [found] at done
            simp only [if_pos large] at done
            cases done
            exact unwritten
          · have zero : size = 0 := by
              by_contra nonzero
              exact idle ⟨by rw [found]; rfl, nonzero, Nat.not_lt.mp large⟩
            rw [zero, writeFile_nothing uninit buf found empty] at done
            cases done
            exact unwritten.putInode (getInode_lt found) rfl
  | readFile inum uninit =>
      obtain ⟨out, -, rfl⟩ := Option.map_eq_some_iff.mp done
      exact unwritten
  | removeFile inum uninit =>
      change removeFile d uninit inum = some after at done
      cases found : getInode d inum with
      | none =>
          unfold removeFile at done
          rw [found] at done
          cases done
          exact unwritten
      | some ino =>
          rw [removeFile_empty uninit found (unwritten.empty inum ino found)] at done
          cases done
          exact unwritten.putInode (getInode_lt found) rfl
  | getattr inum =>
      cases done
      exact unwritten

/-! ### The first write -/

theorem reserved_firstData : Reserved firstData :=
  Or.inr (Or.inr (Or.inr ⟨inodeNum - 1, by decide, firstData_eq_iblock_last⟩))

/-- The first file that is given bytes is given a block of the inode table. -/
theorem Unwritten.not_blocksOwned {d : Disk} (unwritten : Unwritten d) {inum size : Nat}
    {ino : Inode} (uninit : Uninit) (buf : Memory) (found : getInode d inum = some ino)
    (notLast : inum ≠ inodeNum - 1) (any : 0 < size) (small : size ≤ 81920) :
    ∃ after, writeFile d uninit inum buf size = some after ∧ ¬BlocksOwned after := by
  have empty := unwritten.empty inum ino found
  have zero := fileBlocks_zero empty
  have clear : ∀ b, b < 2048 → marked d b = false :=
    fun b below => unwritten.clear b (by rw [blockNum_eq]; omega)
  have owned : Owned d ino := owned_empty empty
  have fits : Fits d inum ino ((size + 511) / 512) := by
    refine ⟨Or.inl (by omega), ?_, fun isLast => absurd isLast notLast⟩
    intro _grows
    apply allocsSucceed_fresh clear
    unfold allocCount
    split <;> omega
  obtain ⟨after, next, ran, rewritten, sized, -, -, -⟩ := writeFile_spec uninit buf found owned
    (fun isLast => absurd isLast notLast) fits small
  refine ⟨after, ran, ?_⟩
  intro blocksOwned
  have gains : fileBlocks ino < fileBlocks next := by
    rw [zero, fileBlocks_eq, sized]
    omega
  have member := rewritten.taken gains
  rw [allocBlock_first (clear firstData (by rw [firstData_eq]; omega))] at member
  exact (blocksOwned.inData inum next rewritten.found _ member).2 reserved_firstData

/-- Blocks are owned in every state of a run that has filled no file; the call
that fills the first one, unless it is the last inode, ends that. -/
theorem blocksOwned_until_filled (uninit : Uninit) {operations : List Operation} {d : Disk}
    (guarded : Guarded perform (fun d operation => ¬Fills d operation) (construct uninit)
      operations)
    (ran : run perform (construct uninit) operations = some d) :
    BlocksOwned d ∧
      ∀ inum buf (size : Nat) memory, Fills d (.writeFile inum buf size memory) →
        size < 2 ^ 31 → inum ≠ inodeNum - 1 →
        ∃ after, perform d (.writeFile inum buf size memory) = some after ∧
          ¬BlocksOwned after := by
  have unwritten : Unwritten d :=
    guarded.invariant
      (fun _before _operation _after holds idle done => holds.perform idle done)
      (Unwritten.construct uninit) ran
  refine ⟨unwritten.blocksOwned, ?_⟩
  rintro inum buf size memory ⟨live, nonzero, fits⟩ isInt notLast
  obtain ⟨ino, found⟩ := Option.isSome_iff_exists.mp live
  have few : size ≤ 81920 := by
    rw [toUint32_ceilInt isInt, maxfile_eq] at fits
    omega
  exact unwritten.not_blocksOwned memory buf found notLast (by omega) few

theorem blocksOwned_until_filled_alloc :
    BlocksOwned (allocInode (construct .zero) .zero 2).2 ∧
      ∀ inum buf (size : Nat) memory,
        Fills (allocInode (construct .zero) .zero 2).2 (.writeFile inum buf size memory) →
        size < 2 ^ 31 → inum ≠ inodeNum - 1 →
        ∃ after, perform (allocInode (construct .zero) .zero 2).2
            (.writeFile inum buf size memory) = some after ∧ ¬BlocksOwned after :=
  @blocksOwned_until_filled .zero [.allocInode 2 .zero] _
    ⟨fun fills => fills, fun _next _done => trivial⟩ rfl

/-- One byte written to the root directory. -/
theorem blocks_not_owned : ∃ after,
    run perform (construct .zero) [.writeFile 1 (fun _ => 97) 1 .zero] = some after ∧
      ¬BlocksOwned after := by
  have found : ∃ ino, getInode (construct .zero) 1 = some ino :=
    Option.isSome_iff_exists.mp (by decide)
  obtain ⟨ino, live⟩ := found
  obtain ⟨after, ran, broken⟩ := (Unwritten.construct .zero).not_blocksOwned .zero (fun _ => 97)
    live (by decide) (show 0 < 1 by decide) (by decide)
  refine ⟨after, ?_, broken⟩
  change (writeFile (construct .zero) .zero 1 (fun _ => 97) 1).bind (fun d => run perform d []) = _
  rw [show writeFile (construct .zero) .zero 1 (fun _ => 97) 1 = some after from ran]
  rfl

end CseLab.FileSystem
