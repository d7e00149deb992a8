import CseLab.FileSystem.Marks

/-! The bitmap as it is meant: one bit for each block. `alloc_block` tests and
sets the bits of the lower half of a bitmap block only, so it allocates in order
as long as nothing in an upper half has its turn. -/

namespace CseLab.FileSystem

open ByteMemory

/-! ### The bit of a block -/

/-- Bit `b % BPB` of block `BBLOCK(b)`, the most significant bit of a byte first. -/
def ownBit (d : Disk) (b : Nat) : Bool :=
  (d.blocks (bblock b) (b % bpb / 8)).toNat.testBit (7 - b % bpb % 8)

/-- The block whose own bit `alloc_block` takes for the mark of `b`. -/
def markOwner (b : Nat) : Nat := if b % 4096 < 2048 then b else b - 2048

theorem markOwner_lower {b : Nat} (lower : b % 4096 < 2048) : markOwner b = b := if_pos lower

theorem markOwner_upper {b : Nat} (upper : 2048 ≤ b % 4096) : markOwner b = b - 2048 :=
  if_neg (Nat.not_lt.mpr upper)

theorem marked_eq_ownBit (d : Disk) (b : Nat) : marked d b = ownBit d (markOwner b) := by
  have block : bblock (markOwner b) = bblock b := by
    rw [bblock_eq, bblock_eq]
    unfold markOwner
    split <;> omega
  have position : markOwner b % bpb = b % 2048 := by
    change markOwner b % 4096 = b % 2048
    unfold markOwner
    split <;> omega
  rw [marked_eq_testBit]
  unfold ownBit
  have bitOf : b % 2048 % 8 = b % 8 := by omega
  rw [block, position, bitOf]

theorem marked_lower (d : Disk) {b : Nat} (lower : b % 4096 < 2048) : marked d b = ownBit d b := by
  rw [marked_eq_ownBit, markOwner_lower lower]

theorem ownBit_setMark (d : Disk) {id : Nat} (onDisk : id < 32768) (b : Nat) :
    ownBit (setMark d id) b = (decide (b = markOwner id) || ownBit d b) := by
  by_cases lower : b % 4096 < 2048
  · rw [← marked_lower _ lower, ← marked_lower _ lower, marked_setMark d onDisk]
    congr 1
    apply decide_eq_decide.mpr
    rw [bblock_eq, bblock_eq]
    unfold markOwner
    split <;> omega
  · -- the bits of the upper half lie in bytes that no mark reaches
    have untouched : ¬(bblock b = bblock id ∧ b % bpb / 8 = id % 2048 / 8) := by
      change ¬(bblock b = bblock id ∧ b % 4096 / 8 = id % 2048 / 8)
      omega
    have different : b ≠ markOwner id := by
      unfold markOwner
      split <;> omega
    rw [decide_eq_false different, Bool.false_or]
    unfold ownBit
    rw [setMark_apply d untouched]

/-! ### What allocation promises -/

/-- Block `id` is the first data block whose own bit is clear. -/
structure FirstUnset (d : Disk) (id : Nat) : Prop where
  lower : firstData ≤ id
  upper : id < sb.nblocks
  unset : ownBit d id = false
  before : ∀ c, firstData ≤ c → c < id → ownBit d c = true

/-- `alloc_block` returns the first block whose own bit is clear and sets exactly
that bit; it returns 0 and leaves the disk alone only when every bit is set. -/
structure AllocatesInOrder (d : Disk) : Prop where
  first : (allocBlock d).1 ≠ 0 → FirstUnset d (allocBlock d).1
  sets : (allocBlock d).1 ≠ 0 → ∀ b < sb.nblocks,
    ownBit (allocBlock d).2 b = (decide (b = (allocBlock d).1) || ownBit d b)
  elsewhere : ∀ n, (∀ b < sb.nblocks, n ≠ bblock b) →
    (allocBlock d).2.blocks n = d.blocks n
  full : (allocBlock d).1 = 0 → (allocBlock d).2 = d ∧
    ∀ c, firstData ≤ c → c < sb.nblocks → ownBit d c = true

def UpperTaken (d : Disk) : Prop :=
  ∀ b, firstData ≤ b → b < sb.nblocks → 2048 ≤ b % 4096 →
    (∀ c, firstData ≤ c → c < b → c % 4096 < 2048 → ownBit d c = true) →
    ownBit d b = true ∧ ownBit d (b - 2048) = true

theorem UpperTaken.marked {d : Disk} (taken : UpperTaken d) {id : Nat}
    (upper : id ≤ sb.nblocks)
    (marks : ∀ c, firstData ≤ c → c < id → c % 4096 < 2048 → ownBit d c = true) :
    ∀ c, firstData ≤ c → c < id → ownBit d c = true := by
  intro c lower below
  by_cases half : c % 4096 < 2048
  · exact marks c lower below half
  · refine (taken c lower (below.trans_le upper) (Nat.not_lt.mp half) ?_).1
    intro earlier lower before
    exact marks earlier lower (before.trans below)

theorem UpperTaken.inOrder {d : Disk} (taken : UpperTaken d) : AllocatesInOrder d := by
  have elsewhere : ∀ n, (∀ b < sb.nblocks, n ≠ bblock b) →
      (allocBlock d).2.blocks n = d.blocks n := by
    intro n outside
    rcases allocBlock_spec d with full | ⟨id, -, upper, -, allocated⟩
    · rw [full]
    · rw [allocated]
      exact setMark_other d (outside id upper)
  by_cases found : (allocBlock d).1 = 0
  · refine ⟨fun nonzero => absurd found nonzero, fun nonzero => absurd found nonzero, elsewhere, ?_⟩
    intro _
    constructor
    · rcases allocBlock_spec d with full | ⟨id, lower, -, -, allocated⟩
      · rw [full]
      · rw [allocated] at found
        change id = 0 at found
        omega
    · apply taken.marked (Nat.le_refl _)
      intro c lower upper half
      rw [← marked_lower d half]
      exact allocBlock_full found lower upper
  · obtain ⟨first, allocated⟩ := allocBlock_firstClear found
    have earlier : ∀ c, firstData ≤ c → c < (allocBlock d).1 → c % 4096 < 2048 →
        ownBit d c = true := by
      intro c lower below half
      rw [← marked_lower d half]
      exact first.before c lower below
    have half : (allocBlock d).1 % 4096 < 2048 := by
      by_contra upperHalf
      have upperHalf := Nat.not_lt.mp upperHalf
      have set := (taken _ first.lower first.upper upperHalf earlier).2
      have clear := first.clear
      rw [marked_eq_ownBit, markOwner_upper upperHalf, set] at clear
      cases clear
    refine ⟨fun _ => ⟨first.lower, first.upper, ?_, ?_⟩, ?_, elsewhere, fun zero => absurd zero found⟩
    · rw [← marked_lower d half]
      exact first.clear
    · exact taken.marked (Nat.le_of_lt first.upper) earlier
    · intro _ b _
      rw [allocated, ownBit_setMark d first.upper, markOwner_lower half]

theorem AllocatesInOrder.returns {d : Disk} (inOrder : AllocatesInOrder d) {id : Nat}
    (unset : FirstUnset d id) : (allocBlock d).1 = id := by
  have found : (allocBlock d).1 ≠ 0 := by
    intro zero
    have set := (inOrder.full zero).2 id unset.lower unset.upper
    rw [unset.unset] at set
    cases set
  have first := inOrder.first found
  rcases Nat.lt_trichotomy (allocBlock d).1 id with before | same | after
  · have set := unset.before _ first.lower before
    rw [first.unset] at set
    cases set
  · exact same
  · have set := first.before _ unset.lower after
    rw [unset.unset] at set
    cases set

theorem AllocatesInOrder.upper {d : Disk} (inOrder : AllocatesInOrder d) {b : Nat}
    (lower : firstData ≤ b) (onDisk : b < sb.nblocks) (upperHalf : 2048 ≤ b % 4096)
    (before : ∀ c, firstData ≤ c → c < b → ownBit d c = true)
    (marks : ∀ c, firstData ≤ c → c < b → marked d c = true) :
    ownBit d b = true ∧ ownBit d (b - 2048) = true := by
  have tested : marked d b = ownBit d (b - 2048) := by
    rw [marked_eq_ownBit, markOwner_upper upperHalf]
  cases twin : ownBit d (b - 2048) with
  | false =>
      -- the scan stops here and sets the other block's bit
      have stops : (allocBlock d).1 = b ∧ (allocBlock d).2 = setMark d b := by
        rw [twin] at tested
        have found : (allocBlock d).1 ≠ 0 := by
          intro zero
          have set := allocBlock_full zero lower onDisk
          rw [tested] at set
          cases set
        obtain ⟨first, allocated⟩ := allocBlock_firstClear found
        have same := first.unique ⟨lower, onDisk, tested, marks⟩
        rw [same] at allocated
        exact ⟨same, allocated⟩
      obtain ⟨same, disk⟩ := stops
      have found : (allocBlock d).1 ≠ 0 := by
        rw [same]
        rw [firstData_eq] at lower
        omega
      have unset := (inOrder.first found).unset
      have set := inOrder.sets found b onDisk
      have other : b ≠ markOwner b := by
        rw [markOwner_upper upperHalf]
        omega
      rw [same] at unset
      rw [disk, same, ownBit_setMark d onDisk, unset, decide_eq_false other] at set
      simp at set
  | true =>
      refine ⟨?_, rfl⟩
      by_contra unset
      have returned := inOrder.returns
        ⟨lower, onDisk, Bool.eq_false_of_not_eq_true unset, before⟩
      have found : (allocBlock d).1 ≠ 0 := by
        rw [returned]
        rw [firstData_eq] at lower
        omega
      have clear := (allocBlock_firstClear found).1.clear
      rw [returned, tested, twin] at clear
      cases clear

theorem AllocatesInOrder.upperTaken {d : Disk} (inOrder : AllocatesInOrder d) : UpperTaken d := by
  intro b
  induction b using Nat.strong_induction_on with
  | _ b ih =>
      intro lower onDisk upperHalf lowerSet
      have before : ∀ c, firstData ≤ c → c < b → 2048 ≤ c % 4096 →
          ownBit d c = true ∧ ownBit d (c - 2048) = true := by
        intro c lower below half
        apply ih c below lower (below.trans onDisk) half
        intro earlier lower before
        exact lowerSet earlier lower (before.trans below)
      apply inOrder.upper lower onDisk upperHalf
      · intro c lower below
        by_cases half : c % 4096 < 2048
        · exact lowerSet c lower below half
        · exact (before c lower below (Nat.not_lt.mp half)).1
      · intro c lower below
        by_cases half : c % 4096 < 2048
        · rw [marked_lower d half]
          exact lowerSet c lower below half
        · rw [marked_eq_ownBit, markOwner_upper (Nat.not_lt.mp half)]
          exact (before c lower below (Nat.not_lt.mp half)).2

/-- The allocator gives out every block in order, and says so in its own bit,
exactly when nothing is left for it in the upper halves. -/
theorem allocBlock_inOrder_iff (d : Disk) : AllocatesInOrder d ↔ UpperTaken d :=
  ⟨AllocatesInOrder.upperTaken, UpperTaken.inOrder⟩

/-- The disk on which every lower half is taken and every upper half is free. -/
def halfFull : Disk := ⟨fun _ address => if address < 256 then 255 else 0⟩

/-- Half of the blocks are free, and none is found. -/
theorem allocBlock_halfFull : (allocBlock halfFull).1 = 0 ∧ ownBit halfFull 2048 = false ∧
    ¬AllocatesInOrder halfFull := by
  have full : (allocBlock halfFull).1 = 0 := by
    rcases allocBlock_spec halfFull with none | ⟨id, -, -, clear, -⟩
    · rw [none]
    · have byte : halfFull.blocks (bblock id) (id % 2048 / 8) = 255 := if_pos (by omega)
      have bits : ∀ k < 8, (255 : UInt8).toNat.testBit k = true := by decide
      rw [marked_eq_testBit, byte, bits _ (by omega)] at clear
      cases clear
  have unset : ownBit halfFull 2048 = false := by decide
  refine ⟨full, unset, ?_⟩
  intro inOrder
  have set := (inOrder.full full).2 2048 (by decide) (by decide)
  rw [unset] at set
  cases set

end CseLab.FileSystem
