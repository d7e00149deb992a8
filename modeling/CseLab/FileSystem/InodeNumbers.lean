import CseLab.FileSystem.Consistency

/-! Inode numbers over calls of `alloc_inode` and `free_inode`: the number handed
out is the smallest that is not live, and a call changes one record at most. -/

namespace CseLab.FileSystem

open ByteMemory

/-! ### The table as a map -/

/-- What `put_inode` stores, `get_inode` returns for that number and no other. -/
theorem inode_table_map (d : Disk) (ino : Inode) {i j : Nat} (inTable : i < inodeNum)
    (different : i ≠ j) :
    getInode (putInode d i ino) i = (if ino.type = 0 then none else some ino) ∧
      getInode (putInode d i ino) j = getInode d j ∧
      ∀ b, b ≠ iblock i sb.nblocks → (putInode d i ino).blocks b = d.blocks b := by
  have self := getInode_putInode_self d ino inTable
  have other := getInode_putInode_other d ino inTable different.symm
  have frame : ∀ b, b ≠ iblock i sb.nblocks → (putInode d i ino).blocks b = d.blocks b := by
    intro b elsewhere
    rw [iblock_eq] at elsewhere
    exact putInode_other d ino elsewhere
  exact ⟨self, other, frame⟩

theorem inode_table_map_sample :
    let ino := { Uninit.zero.ino with type := 2, size := 700 }
    getInode (putInode Disk.fresh 4 ino) 4 = (if ino.type = 0 then none else some ino) ∧
      getInode (putInode Disk.fresh 4 ino) 5 = getInode Disk.fresh 5 ∧
      ∀ b, b ≠ iblock 4 sb.nblocks → (putInode Disk.fresh 4 ino).blocks b = Disk.fresh.blocks b :=
  inode_table_map Disk.fresh _ (by decide) (by decide)

/-! ### Free numbers -/

def freeNumbers (d : Disk) : Set Nat :=
  {inum | 1 ≤ inum ∧ inum < inodeNum ∧ getInode d inum = none}

def SameRecords (d : Disk) (inum : Nat) (after : Disk) : Prop :=
  ∀ other, other ≠ inum → ∀ k < sizeofInode,
    after.blocks (iblock other sb.nblocks) (inodeBase other + k) =
      d.blocks (iblock other sb.nblocks) (inodeBase other + k)

theorem SameRecords.refl (d : Disk) (inum : Nat) : SameRecords d inum d :=
  fun _other _different _k _below => rfl

theorem putInode_sameRecords (d : Disk) {inum : Nat} (ino : Inode) (inTable : inum < inodeNum) :
    SameRecords d inum (putInode d inum ino) := by
  intro other different k below
  have below : k < 152 := below
  rw [iblock_eq]
  exact putInode_record_other d ino inTable different (by omega) (by omega)

theorem allocInode_cases (d : Disk) (uninit : Uninit) (type : UInt32) :
    (freeNumbers d = ∅ ∧ allocInode d uninit type = (0, d)) ∨
      ∃ inum, IsLeast (freeNumbers d) inum ∧ allocInode d uninit type =
        (inum, putInode d inum { uninit.ino with type := type.toUInt16, size := 0 }) := by
  unfold allocInode
  cases search : (List.range' 1 (sb.ninodes - 1)).find?
      (fun inum => (getInode d inum).isNone) with
  | none =>
      rw [List.find?_range'_eq_none] at search
      have empty : freeNumbers d = ∅ := by
        apply Set.eq_empty_of_forall_notMem
        intro inum free
        have live := search inum free.1 (by
          change inum < 1 + (1024 - 1)
          exact free.2.1)
        rw [free.2.2] at live
        cases live
      exact .inl ⟨empty, rfl⟩
  | some inum =>
      obtain ⟨free, inside, earlier⟩ := List.find?_range'_eq_some.mp search
      rw [List.mem_range'_1] at inside
      have least : IsLeast (freeNumbers d) inum := by
        constructor
        · exact ⟨inside.1, inside.2, Option.isNone_iff_eq_none.mp free⟩
        · intro smaller candidate
          by_contra below
          have live := earlier smaller candidate.1 (Nat.lt_of_not_le below)
          rw [candidate.2.2] at live
          cases live
      exact .inr ⟨inum, least, rfl⟩

/-! ### What a call does -/

structure HandedOut (d : Disk) (type : FileType) (inum : Nat) (after : Disk) : Prop where
  least : IsLeast (freeNumbers d) inum
  file : ∃ ino, getInode after inum = some ino ∧ ino.type = type.code.toUInt16 ∧ ino.size = 0
  others : SameRecords d inum after

structure AllocExact (d : Disk) (type : FileType) (inum : Nat) (after : Disk) : Prop where
  exhausted : inum = 0 ↔ freeNumbers d = ∅
  unchanged : inum = 0 → after = d
  handedOut : inum ≠ 0 → HandedOut d type inum after

structure FreeExact (d : Disk) (inum : Nat) (after : Disk) : Prop where
  released : getInode after inum = none
  others : SameRecords d inum after

theorem FileType.code_ne_zero (type : FileType) : type.code.toUInt16 ≠ 0 := by
  cases type <;> decide

theorem allocInode_exact (d : Disk) (uninit : Uninit) (type : FileType) :
    AllocExact d type (allocInode d uninit type.code).1 (allocInode d uninit type.code).2 := by
  rcases allocInode_cases d uninit type.code with ⟨empty, full⟩ | ⟨inum, least, allocated⟩
  · rw [full]
    exact ⟨iff_of_true rfl empty, fun _zero => rfl, fun nonzero => absurd rfl nonzero⟩
  · have positive : inum ≠ 0 := Nat.ne_of_gt least.1.1
    have found := getInode_putInode_self d
      { uninit.ino with type := type.code.toUInt16, size := 0 } least.1.2.1
    rw [if_neg type.code_ne_zero] at found
    have some : freeNumbers d ≠ ∅ := Set.Nonempty.ne_empty ⟨inum, least.1⟩
    rw [allocated]
    constructor
    · exact iff_of_false positive some
    · exact fun zero => absurd zero positive
    · exact fun _nonzero => ⟨least, ⟨_, found, rfl, rfl⟩, putInode_sameRecords d _ least.1.2.1⟩

theorem freeInode_exact (d : Disk) {inum : Nat} (inTable : inum < inodeNum) :
    FreeExact d inum (freeInode d inum) := by
  unfold freeInode
  cases found : getInode d inum with
  | none => exact ⟨found, SameRecords.refl d inum⟩
  | some ino =>
      have released := getInode_putInode_self d { ino with type := 0, size := 0 } inTable
      rw [if_pos rfl] at released
      exact ⟨released, putInode_sameRecords d _ inTable⟩

/-! ### Runs -/

inductive InodeAction where
  | alloc (uninit : Uninit) (type : FileType)
  | free (inum : Nat)

def InodeAction.InRange : InodeAction → Prop
  | .alloc _ _ => True
  | .free inum => 1 ≤ inum ∧ inum < inodeNum

/-- A call between two disks; `free_inode` returns nothing, written 0. -/
structure InodeCall where
  before : Disk
  action : InodeAction
  result : Nat
  after : Disk

def InodeAction.call (d : Disk) (action : InodeAction) : InodeCall :=
  match action with
  | .alloc uninit type =>
      let (inum, after) := allocInode d uninit type.code
      { before := d, action := action, result := inum, after := after }
  | .free inum => { before := d, action := action, result := 0, after := freeInode d inum }

/-- The calls of a run, each on the disk the one before it left. -/
def inodeRun (d : Disk) : List InodeAction → List InodeCall
  | [] => []
  | action :: rest => action.call d :: inodeRun (action.call d).after rest

def InodeCall.Exact (c : InodeCall) : Prop :=
  match c.action with
  | .alloc _ type => AllocExact c.before type c.result c.after
  | .free inum => FreeExact c.before inum c.after

theorem InodeAction.call_exact (d : Disk) {action : InodeAction} (inRange : action.InRange) :
    (action.call d).Exact := by
  cases action with
  | alloc uninit type => exact allocInode_exact d uninit type
  | free inum => exact freeInode_exact d inRange.2

/-- In every run each call does what it is to do. -/
theorem inode_numbers_exact (d : Disk) (actions : List InodeAction)
    (inRange : ∀ action ∈ actions, action.InRange) :
    ∀ c ∈ inodeRun d actions, c.Exact := by
  induction actions generalizing d with
  | nil => simp [inodeRun]
  | cons action rest ih =>
      rw [List.forall_mem_cons] at inRange
      rw [inodeRun, List.forall_mem_cons]
      constructor
      · exact action.call_exact d inRange.1
      · exact ih (action.call d).after inRange.2

theorem inode_numbers_exact_sample :
    let calls := inodeRun Disk.fresh
      [.alloc .zero .dir, .alloc .zero .file, .free 1, .alloc .zero .file]
    calls.map InodeCall.result = [1, 2, 0, 1] ∧ ∀ c ∈ calls, c.Exact := by
  constructor
  · decide +kernel
  · apply inode_numbers_exact
    intro action member
    simp only [List.mem_cons, List.not_mem_nil, or_false] at member
    rcases member with rfl | rfl | rfl | rfl
    · trivial
    · trivial
    · exact ⟨by decide, by decide⟩
    · trivial

end CseLab.FileSystem
