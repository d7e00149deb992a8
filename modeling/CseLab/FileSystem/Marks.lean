import CseLab.FileSystem.Allocator

/-! Allocation marks over calls of `alloc_block` and `free_block`: allocation
takes the first clear mark and never hands out a block twice, while `free_block`
undoes a mark only when there was none to undo. -/

namespace CseLab.FileSystem

open ByteMemory

/-! ### The first clear mark -/

/-- Block `id` is the first one the allocator may take. -/
structure FirstClear (d : Disk) (id : Nat) : Prop where
  lower : firstData ≤ id
  upper : id < sb.nblocks
  clear : marked d id = false
  before : ∀ c, firstData ≤ c → c < id → marked d c = true

theorem FirstClear.unique {d : Disk} {id other : Nat} (first : FirstClear d id)
    (second : FirstClear d other) : id = other := by
  rcases Nat.lt_trichotomy id other with before | same | after
  · have marks := second.before id first.lower before
    rw [first.clear] at marks
    cases marks
  · exact same
  · have marks := first.before other second.lower after
    rw [second.clear] at marks
    cases marks

/-- The bit tested at position `bit` of bitmap block `i` is the mark of one block. -/
theorem marked_position (d : Disk) {i bit : Nat} (inBitmap : 2 ≤ i) (onDisk : i < 32768)
    (below : bit < 4096) :
    marked d ((i - 2) * 4096 + bit) = notFree (d.readBlock i (fun _ => 0) 0) bit := by
  have block : bblock ((i - 2) * 4096 + bit) = i := by
    rw [bblock_eq]
    omega
  have position : ((i - 2) * 4096 + bit) % bpb = bit := by
    change ((i - 2) * 4096 + bit) % 4096 = bit
    omega
  unfold marked
  rw [block, position, notFree_readBlock d onDisk]

theorem marked_of_scanned {d : Disk} {i j : Nat} (inBitmap : 2 ≤ i) (onDisk : i < 32768)
    (none : (List.range' j (bpb - j)).find?
      (fun bit => !notFree (d.readBlock i (fun _ => 0) 0) bit) = none)
    {c : Nat} (lower : (i - 2) * 4096 + j ≤ c) (here : c < (i - 2) * 4096 + 4096) :
    marked d c = true := by
  rw [List.find?_eq_none] at none
  have position : c = (i - 2) * 4096 + (c - (i - 2) * 4096) := by omega
  have scanned : c - (i - 2) * 4096 ∈ List.range' j (bpb - j) := by
    rw [List.mem_range'_1]
    change j ≤ _ ∧ _ < j + (4096 - j)
    omega
  have set := none _ scanned
  rw [Bool.not_eq_true', Bool.not_eq_false] at set
  rw [position, marked_position d inBitmap onDisk (by omega)]
  exact set

theorem allocLoop_before (d : Disk) (count i j : Nat) (inBitmap : 2 ≤ i)
    (onDisk : i + count ≤ 10) (inBlock : j ≤ 4096) (found : (allocLoop d count i j).1 ≠ 0) :
    ∀ c, (i - 2) * 4096 + j ≤ c → c < (allocLoop d count i j).1 → marked d c = true := by
  induction count generalizing i j with
  | zero => exact absurd rfl found
  | succ count ih =>
      unfold allocLoop at found ⊢
      simp only at found ⊢
      split at found
      · rename_i bit here
        obtain ⟨-, member, earlier⟩ := List.find?_range'_eq_some.mp here
        rw [List.mem_range'_1] at member
        have inBlock : bit < 4096 := by
          change j ≤ bit ∧ bit < j + (4096 - j) at member
          omega
        intro c lower below
        have upper : c < (i - 2) * 4096 + bit := below
        have position : c = (i - 2) * 4096 + (c - (i - 2) * 4096) := by omega
        have set := earlier (c - (i - 2) * 4096) (by omega) (by omega)
        rw [Bool.not_not] at set
        rw [position, marked_position d inBitmap (by omega) (by omega)]
        exact set
      · rename_i none
        intro c lower below
        by_cases here : c < (i - 2) * 4096 + 4096
        · exact marked_of_scanned inBitmap (by omega) none lower here
        · have next : (i + 1 - 2) * 4096 + 0 ≤ c := by
            clear found below ih lower none
            omega
          exact ih (i + 1) 0 (by omega) (by omega) (Nat.zero_le _) found c next below

theorem allocLoop_full (d : Disk) (count i j : Nat) (inBitmap : 2 ≤ i) (onDisk : i + count ≤ 10)
    (start : (i - 2) * 4096 + j ≠ 0) (full : (allocLoop d count i j).1 = 0) :
    ∀ c, (i - 2) * 4096 + j ≤ c → c < (i + count - 2) * 4096 → marked d c = true := by
  induction count generalizing i j with
  | zero =>
      intro c lower upper
      omega
  | succ count ih =>
      unfold allocLoop at full
      simp only at full
      split at full
      · rename_i bit here
        have member := List.mem_of_find?_eq_some here
        rw [List.mem_range'_1] at member
        change (i - 2) * 4096 + bit = 0 at full
        omega
      · rename_i none
        intro c lower upper
        by_cases here : c < (i - 2) * 4096 + 4096
        · exact marked_of_scanned inBitmap (by omega) none lower here
        · have next : 2 ≤ i + 1 ∧ i + 1 + count ≤ 10 ∧ (i + 1 - 2) * 4096 + 0 ≠ 0 ∧
              (i + 1 - 2) * 4096 + 0 ≤ c ∧ c < (i + 1 + count - 2) * 4096 := by
            clear full ih none
            omega
          obtain ⟨next, inside, later, lower, upper⟩ := next
          exact ih (i + 1) 0 next inside later full c lower upper

theorem allocBlock_full {d : Disk} (full : (allocBlock d).1 = 0) {c : Nat}
    (lower : firstData ≤ c) (upper : c < sb.nblocks) : marked d c = true := by
  rw [firstData_eq] at lower
  change c < 32768 at upper
  exact allocLoop_full d 8 2 352 (by omega) (by omega) (by omega) full c (by omega) (by omega)

theorem allocBlock_firstClear {d : Disk} (found : (allocBlock d).1 ≠ 0) :
    FirstClear d (allocBlock d).1 ∧
      (allocBlock d).2 = setMark d (allocBlock d).1 := by
  have before := allocLoop_before d 8 2 352 (by omega) (by omega) (by omega) found
  rcases allocBlock_spec d with full | ⟨id, lower, upper, clear, allocated⟩
  · exact absurd (congrArg Prod.fst full) found
  · change ∀ c, (2 - 2) * 4096 + 352 ≤ c → c < (allocBlock d).1 → marked d c = true at before
    rw [allocated] at before ⊢
    constructor
    · exact ⟨lower, upper, clear, fun c above => before c (by rw [firstData_eq] at above; omega)⟩
    · rfl

/-! ### Runs of allocations -/

inductive BlockAction where
  | alloc
  | write (id : Nat) (buf : Memory)

def BlockAction.Outside : BlockAction → Prop
  | .alloc => True
  | .write id _ => ∀ b < sb.nblocks, id ≠ bblock b

/-- The disk, and what the calls of `alloc_block` have returned, the last one first. -/
structure Allocations where
  disk : Disk
  results : List Nat

def Allocations.step (s : Allocations) : BlockAction → Allocations
  | .alloc =>
      let (id, disk) := allocBlock s.disk
      { disk := disk, results := id :: s.results }
  | .write id buf => { s with disk := s.disk.writeBlock id buf }

def allocationRun (d : Disk) (actions : List BlockAction) : Allocations :=
  actions.foldl Allocations.step { disk := d, results := [] }

/-- The non-zero results are distinct data blocks, and each still has its mark. -/
structure Allocations.Distinct (s : Allocations) : Prop where
  data : ∀ id ∈ s.results, id ≠ 0 → firstData ≤ id ∧ id < sb.nblocks
  marks : ∀ id ∈ s.results, id ≠ 0 → marked s.disk id = true
  nodup : (s.results.filter (· ≠ 0)).Nodup

theorem Allocations.Distinct.alloc {s : Allocations} (distinct : s.Distinct) :
    (s.step .alloc).Distinct := by
  have results : (s.step .alloc).results = (allocBlock s.disk).1 :: s.results := rfl
  have disk : (s.step .alloc).disk = (allocBlock s.disk).2 := rfl
  constructor
  · intro id member nonzero
    rw [results, List.mem_cons] at member
    rcases member with rfl | earlier
    · obtain ⟨first, -⟩ := allocBlock_firstClear nonzero
      exact ⟨first.lower, first.upper⟩
    · exact distinct.data id earlier nonzero
  · intro id member nonzero
    rw [results, List.mem_cons] at member
    rw [disk]
    rcases member with rfl | earlier
    · obtain ⟨first, allocated⟩ := allocBlock_firstClear nonzero
      rw [allocated]
      exact marked_setMark_self _ first.upper
    · exact marked_allocBlock_mono (distinct.marks id earlier nonzero)
  · rw [results, List.filter_cons]
    split
    · rename_i nonzero
      have nonzero : (allocBlock s.disk).1 ≠ 0 := by simpa using nonzero
      rw [List.nodup_cons]
      constructor
      · intro again
        obtain ⟨first, -⟩ := allocBlock_firstClear nonzero
        have marks := distinct.marks _ (List.mem_of_mem_filter again) nonzero
        rw [first.clear] at marks
        cases marks
      · exact distinct.nodup
    · exact distinct.nodup

theorem Allocations.Distinct.write {s : Allocations} (distinct : s.Distinct) {id : Nat}
    {buf : Memory} (outside : (BlockAction.write id buf).Outside) :
    (s.step (.write id buf)).Distinct := by
  constructor
  · exact distinct.data
  · intro other member nonzero
    obtain ⟨-, upper⟩ := distinct.data other member nonzero
    have same : (s.disk.writeBlock id buf).blocks (bblock other) = s.disk.blocks (bblock other) :=
      Disk.writeBlock_other s.disk buf (outside other upper).symm
    change marked (s.disk.writeBlock id buf) other = true
    rw [marked_congr same]
    exact distinct.marks other member nonzero
  · exact distinct.nodup

theorem allocationRun_distinct (d : Disk) {actions : List BlockAction}
    (outside : ∀ action ∈ actions, action.Outside) : (allocationRun d actions).Distinct := by
  apply Loop.foldl_invariant Allocations.Distinct
  · exact ⟨by simp, by simp, by simp⟩
  · intro s action member distinct
    cases action with
    | alloc => exact distinct.alloc
    | write id buf => exact distinct.write (outside _ member)

/-- Without frees, no block is handed out twice, and every block handed out lies
in the data area. -/
theorem allocations_distinct (d : Disk) (actions : List BlockAction)
    (outside : ∀ action ∈ actions, action.Outside) :
    (∀ id ∈ (allocationRun d actions).results, id ≠ 0 →
      iblock sb.ninodes sb.nblocks ≤ id ∧ id ≤ sb.nblocks - 1) ∧
    ((allocationRun d actions).results.filter (· ≠ 0)).Nodup := by
  have distinct := allocationRun_distinct d outside
  constructor
  · intro id member nonzero
    obtain ⟨lower, upper⟩ := distinct.data id member nonzero
    exact ⟨lower, Nat.le_sub_one_of_lt upper⟩
  · exact distinct.nodup

theorem allocations_distinct_sample :
    let actions := [.alloc, .write 400 (fun _ => 255), .alloc, .write 352 (fun _ => 0), .alloc]
    (∀ id ∈ (allocationRun Disk.fresh actions).results, id ≠ 0 →
      iblock sb.ninodes sb.nblocks ≤ id ∧ id ≤ sb.nblocks - 1) ∧
    ((allocationRun Disk.fresh actions).results.filter (· ≠ 0)).Nodup := by
  apply allocations_distinct
  intro action member
  have small : ∀ b < sb.nblocks, bblock b < 10 := by
    intro b below
    change b < 32768 at below
    rw [bblock_eq]
    omega
  simp only [List.mem_cons, List.not_mem_nil, or_false] at member
  rcases member with rfl | rfl | rfl | rfl | rfl
  · trivial
  · exact fun b below same => absurd (small b below) (by omega)
  · trivial
  · exact fun b below same => absurd (small b below) (by omega)
  · trivial

/-! ### `free_block` after an allocation -/

def freedByte (d : Disk) (id : Nat) : UInt8 := d.blocks (bblock id) (id % 256 / 8)

theorem setMark_apply (d : Disk) {id b address : Nat}
    (elsewhere : ¬(b = bblock id ∧ address = id % 2048 / 8)) :
    (setMark d id).blocks b address = d.blocks b address := by
  unfold setMark
  rw [Disk.writeBlock_apply]
  split
  · rename_i here
    obtain ⟨onDisk, rfl, inBlock⟩ := here
    have byte : id % bpb / 8 % 256 = id % 2048 / 8 := by
      change id % 4096 / 8 % 256 = id % 2048 / 8
      omega
    have different : address ≠ id % bpb / 8 % 256 := by
      rw [byte]
      exact fun same => elsewhere ⟨rfl, same⟩
    unfold markBit
    rw [Function.update_of_ne different, Disk.readBlock_apply,
      if_pos ⟨onDisk, Nat.zero_le _, by omega⟩, Nat.sub_zero]
  · rfl

theorem freeBlock_small {d : Disk} {id : Nat} (small : freedByte d id ≤ 1) (b : Nat) :
    (freeBlock d id).blocks b = d.blocks b := by
  funext address
  rw [freeBlock_apply]
  split
  · rename_i here
    obtain ⟨-, rfl, rfl⟩ := here
    change (if freedByte d id = 0 then (0 : UInt8) else 1) = freedByte d id
    split
    · rename_i zero
      exact zero.symm
    · rename_i nonzero
      apply UInt8.toNat_inj.mp
      have below : (freedByte d id).toNat ≤ 1 := small
      have positive : (freedByte d id).toNat ≠ 0 := fun zero => nonzero (UInt8.toNat_inj.mp zero)
      change 1 = (freedByte d id).toNat
      omega
  · rfl

/-- The other block with the same mark. -/
def twin (id : Nat) : Nat := if id % 4096 < 2048 then id + 2048 else id - 2048

theorem marked_twin (d : Disk) (id : Nat) : marked d (twin id) = marked d id := by
  have block : bblock (twin id) = bblock id := by
    rw [bblock_eq, bblock_eq]
    unfold twin
    split <;> omega
  have byte : twin id % 2048 = id % 2048 := by
    unfold twin
    split <;> omega
  have sameBit : twin id % 8 = id % 8 := by omega
  rw [marked_eq_testBit, marked_eq_testBit, block, byte, sameBit]

theorem freedByte_small {d : Disk} {id : Nat} (upper : id < sb.nblocks)
    (kept : ∀ b < sb.nblocks, marked (freeBlock d id) b = marked d b) : freedByte d id ≤ 1 := by
  have sameBits : ∀ k < 8, (freedByte (freeBlock d id) id).toNat.testBit k =
      (freedByte d id).toNat.testBit k := by
    intro k below
    -- the block whose mark is bit `k` of the byte
    have inDisk : id / 4096 * 4096 + id % 256 / 8 * 8 + (7 - k) < sb.nblocks := by
      change id < 32768 at upper
      change _ < 32768
      omega
    have same := kept _ inDisk
    rw [marked_eq_testBit, marked_eq_testBit, bblock_eq] at same
    have sameBlock : (id / 4096 * 4096 + id % 256 / 8 * 8 + (7 - k)) / 4096 = id / 4096 := by omega
    have byteOf : (id / 4096 * 4096 + id % 256 / 8 * 8 + (7 - k)) % 2048 / 8 = id % 256 / 8 := by
      omega
    have bitOf : 7 - (id / 4096 * 4096 + id % 256 / 8 * 8 + (7 - k)) % 8 = k := by omega
    rw [sameBlock, byteOf, bitOf] at same
    exact same
  have same : freedByte (freeBlock d id) id = freedByte d id := by
    apply UInt8.toNat_inj.mp
    apply Nat.eq_of_testBit_eq
    intro k
    by_cases below : k < 8
    · exact sameBits k below
    · have high : ∀ v : UInt8, v.toNat.testBit k = false := fun v =>
        Nat.testBit_lt_two_pow (v.toNat_lt.trans_le (Nat.pow_le_pow_right (by omega) (Nat.not_lt.mp below)))
      rw [high, high]
  have onDisk : bblock id < 32768 := by
    change id < 32768 at upper
    rw [bblock_eq]
    omega
  rw [← same]
  unfold freedByte
  rw [freeBlock_apply, if_pos ⟨onDisk, rfl, rfl⟩]
  split
  · exact UInt8.zero_le
  · exact Nat.le_refl 1

theorem freeBlock_clears_iff (d : Disk) {id : Nat} (upper : id < sb.nblocks) :
    (marked (freeBlock d id) id = false ∧
        ∀ b < sb.nblocks, b ≠ id → marked (freeBlock d id) b = marked d b) ↔
      marked d id = false ∧ freedByte d id ≤ 1 := by
  constructor
  · rintro ⟨cleared, kept⟩
    have wasClear : marked d id = false := by
      have twinKept : marked (freeBlock d id) (twin id) = marked d (twin id) := by
        apply kept
        · change id < 32768 at upper
          change _ < 32768
          unfold twin
          split <;> omega
        · unfold twin
          split <;> omega
      rw [marked_twin, marked_twin] at twinKept
      rw [← twinKept]
      exact cleared
    refine ⟨wasClear, freedByte_small upper ?_⟩
    intro b below
    by_cases same : b = id
    · rw [same, cleared, wasClear]
    · exact kept b below same
  · rintro ⟨wasClear, small⟩
    have unchanged : ∀ b, marked (freeBlock d id) b = marked d b :=
      fun b => marked_congr (freeBlock_small small _)
    exact ⟨(unchanged id).trans wasClear, fun b _below _different => unchanged b⟩

theorem freedByte_setMark_ne_zero (d : Disk) {id : Nat} (upper : id < sb.nblocks)
    (near : id % 2048 < 256) : freedByte (setMark d id) id ≠ 0 := by
  intro zero
  have marks := marked_setMark_self d upper
  have byteOf : id % 2048 / 8 = id % 256 / 8 := by omega
  rw [marked_eq_testBit, byteOf] at marks
  change (freedByte (setMark d id) id).toNat.testBit _ = true at marks
  rw [zero] at marks
  simp at marks

theorem freeBlock_setMark_iff (d : Disk) {id : Nat} (upper : id < sb.nblocks)
    (clear : marked d id = false) :
    (∀ b < sb.nblocks,
        (freeBlock (setMark d id) id).blocks (bblock b) = d.blocks (bblock b)) ↔
      id % 2048 < 256 ∧ freedByte d id = 1 := by
  have onDisk : bblock id < 32768 := by
    change id < 32768 at upper
    rw [bblock_eq]
    omega
  have rewritten : id % 2048 < 256 →
      (freeBlock (setMark d id) id).blocks (bblock id) (id % 256 / 8) = 1 := by
    intro near
    rw [freeBlock_apply, if_pos ⟨onDisk, rfl, rfl⟩]
    exact if_neg (freedByte_setMark_ne_zero d upper near)
  constructor
  · intro restored
    have near : id % 2048 < 256 := by
      by_contra far
      have kept : ¬Clears id id := by
        rintro ⟨-, sameByte, -⟩
        omega
      have marks := marked_freeBlock (marked_setMark_self d upper) kept
      rw [marked_congr (restored id upper), clear] at marks
      cases marks
    refine ⟨near, ?_⟩
    rw [← rewritten near, restored id upper]
    rfl
  · rintro ⟨near, one⟩ b _below
    funext address
    by_cases here : bblock b = bblock id ∧ address = id % 256 / 8
    · obtain ⟨sameBlock, rfl⟩ := here
      rw [sameBlock, rewritten near]
      exact one.symm
    · rw [freeBlock_apply, if_neg (fun all => here all.2), setMark_apply]
      have byteOf : id % 2048 / 8 = id % 256 / 8 := by omega
      rw [byteOf]
      exact here

/-- `free_block` gives back a mark that is not there and rewrites a byte that
stays as it is; it undoes an allocation only in the first bytes of the marks. -/
theorem free_inverts_mark (d : Disk) :
    (∀ id, iblock sb.ninodes sb.nblocks ≤ id → id < sb.nblocks →
      ((marked (freeBlock d id) id = false ∧
          ∀ b < sb.nblocks, b ≠ id → marked (freeBlock d id) b = marked d b) ↔
        marked d id = false ∧ freedByte d id ≤ 1)) ∧
    ((allocBlock d).1 ≠ 0 →
      ((∀ b < sb.nblocks,
          (freeBlock (allocBlock d).2 (allocBlock d).1).blocks (bblock b) =
            d.blocks (bblock b)) ↔
        ∃ id, FirstClear d id ∧ id % 2048 < 256 ∧ freedByte d id = 1)) := by
  constructor
  · intro id _lower upper
    exact freeBlock_clears_iff d upper
  · intro found
    obtain ⟨first, allocated⟩ := allocBlock_firstClear found
    rw [allocated, freeBlock_setMark_iff d first.upper first.clear]
    constructor
    · exact fun condition => ⟨_, first, condition⟩
    · rintro ⟨id, other, condition⟩
      rw [first.unique other]
      exact condition

theorem free_inverts_mark_fresh :
    (marked (freeBlock Disk.fresh 352) 352 = false ∧
      ∀ b < sb.nblocks, b ≠ 352 → marked (freeBlock Disk.fresh 352) b = marked Disk.fresh b) ∧
    ¬∀ b < sb.nblocks, (freeBlock (allocBlock Disk.fresh).2 (allocBlock Disk.fresh).1).blocks
      (bblock b) = Disk.fresh.blocks (bblock b) := by
  have first : allocBlock Disk.fresh = (firstData, setMark Disk.fresh firstData) :=
    allocBlock_first rfl
  have found : (allocBlock Disk.fresh).1 ≠ 0 := by
    rw [first]
    decide
  constructor
  · exact ((free_inverts_mark Disk.fresh).1 352 (by decide) (by decide)).mpr ⟨rfl, by decide⟩
  · rw [(free_inverts_mark Disk.fresh).2 found]
    rintro ⟨id, -, -, one⟩
    exact absurd one (by change ¬((0 : UInt8) = 1); decide)

/-- The first allocation on a fresh disk is block 352; freeing it clears nothing. -/
theorem free_keeps_mark :
    (allocBlock Disk.fresh).1 = 352 ∧
    marked (freeBlock (allocBlock Disk.fresh).2 352) 352 = true ∧
    (freeBlock (allocBlock Disk.fresh).2 352).blocks (bblock 352) ≠
      Disk.fresh.blocks (bblock 352) := by
  have first : allocBlock Disk.fresh = (352, setMark Disk.fresh 352) := allocBlock_first rfl
  have marks : marked (freeBlock (setMark Disk.fresh 352) 352) 352 = true :=
    marked_freeBlock (marked_setMark_self _ (by decide)) (not_clears_firstData 352)
  rw [first]
  refine ⟨rfl, marks, ?_⟩
  intro same
  rw [marked_congr same] at marks
  cases marks

end CseLab.FileSystem
