import CseLab.FileSystem.BlockManager
import CseLab.Lib.Loop

/-! What the allocator does to the disk. A block's mark is the bit that
`alloc_block` tests for it; since the byte index is eight bits wide, two blocks
of one bitmap block that lie 2048 apart share a mark. -/

namespace CseLab.FileSystem

open ByteMemory

/-! ### Layout -/

theorem blockNum_eq : blockNum = 32768 := rfl

theorem bblock_eq (b : Nat) : bblock b = b / 4096 + 2 := rfl

theorem iblock_eq (inum : Nat) : iblock inum sb.nblocks = 11 + inum / 3 := by
  change 32768 / 4096 + inum / 3 + 3 = 11 + inum / 3
  omega

/-- `IBLOCK(sb.ninodes, sb.nblocks)`, where the allocator starts to scan. -/
def firstData : Nat := iblock sb.ninodes sb.nblocks

theorem firstData_eq : firstData = 352 := rfl

/-- The allocator's first block is the inode block of the last inode. -/
theorem firstData_eq_iblock_last : firstData = iblock (inodeNum - 1) sb.nblocks := rfl

/-! ### Disk -/

theorem Disk.writeBlock_apply (d : Disk) (id : Nat) (buf : Memory) (b address : Nat) :
    (d.writeBlock id buf).blocks b address =
      if id < 32768 ∧ b = id ∧ address < 512 then buf address else d.blocks b address := by
  unfold Disk.writeBlock
  rw [blockNum_eq]
  by_cases onDisk : id < 32768
  · rw [if_pos onDisk]
    by_cases same : b = id
    · subst same
      simp [memcpy, blockSize, onDisk]
    · simp [same]
  · rw [if_neg onDisk, if_neg (fun all => onDisk all.1)]

theorem Disk.writeBlock_other (d : Disk) {id b : Nat} (buf : Memory) (different : b ≠ id) :
    (d.writeBlock id buf).blocks b = d.blocks b := by
  funext address
  rw [Disk.writeBlock_apply, if_neg (fun all => different all.2.1)]

theorem Disk.readBlock_apply (d : Disk) (id : Nat) (buf : Memory) (offset address : Nat) :
    d.readBlock id buf offset address =
      if id < 32768 ∧ offset ≤ address ∧ address < offset + 512 then
        d.blocks id (address - offset)
      else buf address := by
  unfold Disk.readBlock
  rw [blockNum_eq]
  by_cases onDisk : id < 32768
  · rw [if_pos onDisk]
    by_cases inside : offset ≤ address ∧ address < offset + 512
    · rw [if_pos ⟨onDisk, inside⟩]
      exact memcpy_inside inside.1 inside.2
    · rw [if_neg (fun all => inside all.2)]
      exact if_neg inside
  · rw [if_neg onDisk, if_neg (fun all => onDisk all.1)]

/-! ### Marks -/

/-- The mark that `alloc_block` tests for block `b`. -/
def marked (d : Disk) (b : Nat) : Bool := notFree (d.blocks (bblock b)) (b % bpb)

private theorem and_two_pow_ne_zero (x k : Nat) : (x &&& 2 ^ k != 0) = x.testBit k := by
  cases bit : x.testBit k with
  | true =>
      have set : (x &&& 2 ^ k).testBit k = true := by
        rw [Nat.testBit_and, bit, Nat.testBit_two_pow_self, Bool.and_true]
      have nonzero : x &&& 2 ^ k ≠ 0 := by
        intro zero
        rw [zero, Nat.zero_testBit] at set
        cases set
      exact bne_iff_ne.mpr nonzero
  | false =>
      have zero : x &&& 2 ^ k = 0 := by
        apply Nat.eq_of_testBit_eq
        intro position
        rw [Nat.testBit_and, Nat.testBit_two_pow, Nat.zero_testBit]
        by_cases same : k = position
        · rw [← same, bit, Bool.false_and]
        · rw [decide_eq_false same, Bool.and_false]
      rw [zero]
      rfl

theorem notFree_eq_testBit (bitMap : Memory) (j : Nat) :
    notFree bitMap j = (bitMap (j / 8 % 256)).toNat.testBit (7 - j % 8) := by
  have shifted : ((bitMap (j / 8 % 256)).toNat <<< (j % 8)).testBit 7 =
      (bitMap (j / 8 % 256)).toNat.testBit (7 - j % 8) := by
    rw [Nat.testBit_shiftLeft]
    have bit : 7 ≥ j % 8 := by omega
    simp only [bit, decide_true, Bool.true_and]
  rw [← shifted]
  exact and_two_pow_ne_zero _ 7

theorem notFree_congr {left right : Memory} {j : Nat}
    (same : left (j / 8 % 256) = right (j / 8 % 256)) : notFree left j = notFree right j := by
  rw [notFree_eq_testBit, notFree_eq_testBit, same]

theorem notFree_readBlock (d : Disk) {i : Nat} (onDisk : i < 32768) (j : Nat) :
    notFree (d.readBlock i (fun _ => 0) 0) j = notFree (d.blocks i) j := by
  apply notFree_congr
  have inside : i < 32768 ∧ 0 ≤ j / 8 % 256 ∧ j / 8 % 256 < 0 + 512 := by omega
  rw [Disk.readBlock_apply, if_pos inside, Nat.sub_zero]

theorem notFree_markBit (bitMap : Memory) (j j' : Nat) :
    notFree (markBit bitMap j) j' =
      (decide (j / 8 % 256 = j' / 8 % 256 ∧ j % 8 = j' % 8) || notFree bitMap j') := by
  rw [notFree_eq_testBit, notFree_eq_testBit]
  by_cases sameByte : j' / 8 % 256 = j / 8 % 256
  · have bound : (1 <<< (7 - j % 8) ||| (bitMap (j / 8 % 256)).toNat) < 256 :=
      Nat.or_lt_two_pow (n := 8)
        (by
          rw [Nat.shiftLeft_eq, Nat.one_mul]
          exact Nat.pow_lt_pow_right (by omega) (by omega))
        (bitMap (j / 8 % 256)).toNat_lt
    have byte : (markBit bitMap j (j' / 8 % 256)).toNat =
        1 <<< (7 - j % 8) ||| (bitMap (j / 8 % 256)).toNat := by
      unfold markBit
      rw [sameByte, Function.update_self, UInt8.toNat_ofNat', Nat.mod_eq_of_lt bound]
    rw [byte, Nat.testBit_or, Nat.shiftLeft_eq, Nat.one_mul, Nat.testBit_two_pow, sameByte]
    congr 1
    exact decide_eq_decide.mpr (by omega)
  · have byte : markBit bitMap j (j' / 8 % 256) = bitMap (j' / 8 % 256) := by
      unfold markBit
      exact Function.update_of_ne sameByte _ _
    rw [byte]
    have otherByte : ¬(j / 8 % 256 = j' / 8 % 256) := fun same => sameByte same.symm
    simp [otherByte]

def setMark (d : Disk) (id : Nat) : Disk :=
  d.writeBlock (bblock id) (markBit (d.readBlock (bblock id) (fun _ => 0) 0) (id % bpb))

theorem setMark_other (d : Disk) {id b : Nat} (different : b ≠ bblock id) :
    (setMark d id).blocks b = d.blocks b :=
  Disk.writeBlock_other d _ different

theorem marked_setMark (d : Disk) {id : Nat} (onDisk : id < 32768) (b : Nat) :
    marked (setMark d id) b =
      (decide (bblock id = bblock b ∧ id % 2048 = b % 2048) || marked d b) := by
  unfold marked
  by_cases sameBlock : bblock b = bblock id
  · have written : notFree ((setMark d id).blocks (bblock b)) (b % bpb) =
        notFree (markBit (d.blocks (bblock id)) (id % bpb)) (b % bpb) := by
      apply notFree_congr
      have inBlock : b % bpb / 8 % 256 < 512 := by omega
      have onBitmap : bblock id < 32768 := by
        rw [bblock_eq]
        omega
      unfold setMark
      rw [Disk.writeBlock_apply, if_pos ⟨onBitmap, sameBlock, inBlock⟩]
      unfold markBit
      rw [Disk.readBlock_apply, if_pos ⟨onBitmap, by omega, by omega⟩]
      by_cases sameByte : b % bpb / 8 % 256 = id % bpb / 8 % 256
      · rw [sameByte, Function.update_self, Function.update_self]
        rfl
      · rw [Function.update_of_ne sameByte, Function.update_of_ne sameByte,
          Disk.readBlock_apply, if_pos ⟨onBitmap, by omega, by omega⟩]
        rfl
    rw [written, notFree_markBit, sameBlock]
    congr 1
    apply decide_eq_decide.mpr
    simp only [true_and]
    change id % 4096 / 8 % 256 = b % 4096 / 8 % 256 ∧ id % 4096 % 8 = b % 4096 % 8 ↔
      id % 2048 = b % 2048
    omega
  · rw [setMark_other d sameBlock]
    have otherBlock : ¬(bblock id = bblock b) := fun same => sameBlock same.symm
    simp [otherBlock]

theorem marked_setMark_self (d : Disk) {id : Nat} (onDisk : id < 32768) :
    marked (setMark d id) id = true := by
  rw [marked_setMark d onDisk]
  simp

theorem marked_setMark_mono {d : Disk} {id b : Nat} (onDisk : id < 32768)
    (was : marked d b = true) : marked (setMark d id) b = true := by
  rw [marked_setMark d onDisk, was, Bool.or_true]

theorem marked_congr {left right : Disk} {b : Nat}
    (same : left.blocks (bblock b) = right.blocks (bblock b)) : marked left b = marked right b := by
  unfold marked
  rw [same]

/-! ### `alloc_block` -/

theorem allocLoop_spec (d : Disk) (count i j : Nat) (inBitmap : 2 ≤ i)
    (onDisk : i + count ≤ 10) (inBlock : j ≤ 4096) :
    allocLoop d count i j = (0, d) ∨
      ∃ id, (i - 2) * 4096 + j ≤ id ∧ id < 32768 ∧ marked d id = false ∧
        allocLoop d count i j = (id, setMark d id) := by
  induction count generalizing i j with
  | zero => exact Or.inl rfl
  | succ count ih =>
      unfold allocLoop
      simp only
      split
      · rename_i bit found
        have clear := List.find?_some found
        have member := List.mem_of_find?_eq_some found
        rw [List.mem_range'_1] at member
        have upper : bit < 4096 := by
          change j ≤ bit ∧ bit < j + (4096 - j) at member
          omega
        have block : bblock ((i - 2) * bpb + bit) = i := by
          change ((i - 2) * 4096 + bit) / 4096 + 2 = i
          omega
        have position : ((i - 2) * bpb + bit) % bpb = bit := by
          change ((i - 2) * 4096 + bit) % 4096 = bit
          omega
        refine Or.inr ⟨(i - 2) * bpb + bit, ?_, ?_, ?_, ?_⟩
        · change (i - 2) * 4096 + j ≤ (i - 2) * 4096 + bit
          omega
        · change (i - 2) * 4096 + bit < 32768
          omega
        · unfold marked
          rw [block, position]
          rw [notFree_readBlock d (by omega)] at clear
          exact Bool.not_eq_true' _ |>.mp clear
        · unfold setMark
          rw [block, position]
      · have later : (i - 2) * 4096 + j ≤ (i + 1 - 2) * 4096 + 0 := by omega
        rcases ih (i + 1) 0 (by omega) (by omega) (by omega) with full | ⟨id, lower, rest⟩
        · exact Or.inl full
        · exact Or.inr ⟨id, later.trans lower, rest⟩

theorem allocBlock_spec (d : Disk) :
    allocBlock d = (0, d) ∨
      ∃ id, 352 ≤ id ∧ id < 32768 ∧ marked d id = false ∧ allocBlock d = (id, setMark d id) :=
  allocLoop_spec d 8 2 352 (by omega) (by omega) (by omega)

theorem allocBlock_least {d : Disk} {b : Nat} (lower : 352 ≤ b) (upper : b < 4096)
    (clear : marked d b = false) (taken : ∀ c, 352 ≤ c → c < b → marked d c = true) :
    allocBlock d = (b, setMark d b) := by
  have mark : ∀ c, c < 4096 →
      notFree (d.readBlock 2 (fun _ => 0) 0) c = marked d c := by
    intro c below
    rw [notFree_readBlock d (by omega)]
    unfold marked
    have firstBlock : bblock c = 2 := by rw [bblock_eq]; omega
    have inBlock : c % bpb = c := Nat.mod_eq_of_lt below
    rw [firstBlock, inBlock]
  have found : (List.range' 352 (bpb - 352)).find?
      (fun bit => !notFree (d.readBlock 2 (fun _ => 0) 0) bit) = some b := by
    rw [List.find?_range'_eq_some]
    refine ⟨?_, ?_, ?_⟩
    · rw [mark b upper, clear]
      rfl
    · rw [List.mem_range'_1]
      change 352 ≤ b ∧ b < 352 + (4096 - 352)
      omega
    · intro c above below
      rw [mark c (by omega), taken c above below]
      rfl
  have block : bblock b = 2 := by
    rw [bblock_eq]
    omega
  change allocLoop d (7 + 1) 2 352 = _
  unfold allocLoop setMark
  have position : b % bpb = b := Nat.mod_eq_of_lt upper
  rw [block, position]
  simp only [found, Nat.sub_self, Nat.zero_mul, Nat.zero_add]

theorem allocBlock_first {d : Disk} (clear : marked d firstData = false) :
    allocBlock d = (firstData, setMark d firstData) :=
  allocBlock_least (Nat.le_refl 352) (by rw [firstData_eq]; omega) clear
    (fun c lower upper => absurd upper (Nat.not_lt.mpr lower))

theorem allocBlock_lt (d : Disk) : (allocBlock d).1 < 32768 := by
  rcases allocBlock_spec d with full | ⟨id, -, upper, -, allocated⟩
  · rw [full]
    omega
  · rw [allocated]
    exact upper

theorem marked_allocBlock_mono {d : Disk} {b : Nat} (was : marked d b = true) :
    marked (allocBlock d).2 b = true := by
  rcases allocBlock_spec d with full | ⟨id, -, upper, -, allocated⟩
  · rw [full]
    exact was
  · rw [allocated]
    exact marked_setMark_mono upper was

theorem allocBlock_other (d : Disk) {b : Nat} (outside : 10 ≤ b) :
    (allocBlock d).2.blocks b = d.blocks b := by
  rcases allocBlock_spec d with full | ⟨id, -, upper, -, allocated⟩
  · rw [full]
  · rw [allocated]
    apply setMark_other
    rw [bblock_eq]
    omega

/-! ### Sequences of allocations -/

def afterAllocs (d : Disk) : (count : Nat) → Disk
  | 0 => d
  | count + 1 => (allocBlock (afterAllocs d count)).2

def nthAlloc (d : Disk) (index : Nat) : Nat := (allocBlock (afterAllocs d index)).1

def AllocsSucceed (d : Disk) (count : Nat) : Prop := ∀ index < count, nthAlloc d index ≠ 0

instance (d : Disk) (count : Nat) : Decidable (AllocsSucceed d count) :=
  inferInstanceAs (Decidable (∀ index < count, nthAlloc d index ≠ 0))

theorem allocBlock_afterAllocs (d : Disk) (count : Nat) :
    allocBlock (afterAllocs d count) = (nthAlloc d count, afterAllocs d (count + 1)) := rfl

theorem afterAllocs_add (d : Disk) (first second : Nat) :
    afterAllocs (afterAllocs d first) second = afterAllocs d (first + second) := by
  induction second with
  | zero => rfl
  | succ second ih =>
      change (allocBlock (afterAllocs (afterAllocs d first) second)).2 = _
      rw [ih]
      rfl

theorem nthAlloc_afterAllocs (d : Disk) (first index : Nat) :
    nthAlloc (afterAllocs d first) index = nthAlloc d (first + index) := by
  unfold nthAlloc
  rw [afterAllocs_add]

theorem afterAllocs_other (d : Disk) (count : Nat) {b : Nat} (outside : 10 ≤ b) :
    (afterAllocs d count).blocks b = d.blocks b := by
  induction count with
  | zero => rfl
  | succ count ih => exact (allocBlock_other _ outside).trans ih

theorem marked_afterAllocs_mono {d : Disk} {first second b : Nat} (later : first ≤ second)
    (was : marked (afterAllocs d first) b = true) : marked (afterAllocs d second) b = true := by
  induction second, later using Nat.le_induction with
  | base => exact was
  | succ second _ ih => exact marked_allocBlock_mono ih

section Successful

variable {d : Disk} {count index : Nat} (succeed : AllocsSucceed d count) (below : index < count)

include succeed below

theorem nthAlloc_spec :
    352 ≤ nthAlloc d index ∧ nthAlloc d index < 32768 ∧
      marked (afterAllocs d index) (nthAlloc d index) = false ∧
      afterAllocs d (index + 1) = setMark (afterAllocs d index) (nthAlloc d index) := by
  rcases allocBlock_spec (afterAllocs d index) with full | ⟨id, lower, upper, clear, allocated⟩
  · exact absurd (congrArg Prod.fst full) (succeed index below)
  · rw [allocBlock_afterAllocs] at allocated
    obtain ⟨same, next⟩ := Prod.mk.inj allocated
    rw [same]
    exact ⟨lower, upper, clear, next⟩

theorem marked_nthAlloc : marked d (nthAlloc d index) = false := by
  obtain ⟨-, -, clear, -⟩ := nthAlloc_spec succeed below
  by_contra marks
  have later := marked_afterAllocs_mono (d := d) (Nat.zero_le index) (Bool.eq_true_of_not_eq_false marks)
  rw [clear] at later
  cases later

theorem marked_afterAllocs_nthAlloc :
    marked (afterAllocs d count) (nthAlloc d index) = true := by
  obtain ⟨-, upper, -, next⟩ := nthAlloc_spec succeed below
  have allocated : index + 1 ≤ count := below
  apply marked_afterAllocs_mono allocated
  rw [next]
  exact marked_setMark_self _ upper

theorem nthAlloc_injective {other : Nat} (belowOther : other < count)
    (same : nthAlloc d index = nthAlloc d other) : index = other := by
  have ordered : ∀ {first second : Nat}, first < second → second < count →
      nthAlloc d first ≠ nthAlloc d second := by
    intro first second before inside equal
    obtain ⟨-, -, clear, -⟩ := nthAlloc_spec succeed inside
    have firstMarked := marked_afterAllocs_nthAlloc
      (fun index below => succeed index (by omega)) (show first < second from before)
    rw [equal, clear] at firstMarked
    cases firstMarked
  rcases Nat.lt_trichotomy index other with before | equal | after
  · exact absurd same (ordered before belowOther)
  · exact equal
  · exact absurd same.symm (ordered after below)

end Successful

theorem marked_firstData_afterAllocs (d : Disk) {count : Nat} (any : 0 < count) :
    marked (afterAllocs d count) firstData = true := by
  have atLeast : 1 ≤ count := any
  apply marked_afterAllocs_mono atLeast
  change marked (allocBlock d).2 firstData = true
  cases already : marked d firstData with
  | true => exact marked_allocBlock_mono already
  | false =>
      have onDisk : firstData < 32768 := by
        rw [firstData_eq]
        omega
      have marks := marked_setMark_self d onDisk
      rw [allocBlock_first already]
      exact marks

/-- Only the first call can return the first data block. -/
theorem nthAlloc_firstData {d : Disk} {index : Nat} (first : nthAlloc d index = firstData) :
    index = 0 := by
  by_contra later
  have taken := marked_firstData_afterAllocs d (Nat.pos_of_ne_zero later)
  rcases allocBlock_spec (afterAllocs d index) with full | ⟨id, -, -, clear, allocated⟩
  · have zero : nthAlloc d index = 0 := congrArg Prod.fst full
    rw [zero, firstData_eq] at first
    cases first
  · have same : id = firstData := (congrArg Prod.fst allocated).symm.trans first
    rw [same, taken] at clear
    cases clear

theorem nthAlloc_eq_zero_or (d : Disk) (index : Nat) :
    nthAlloc d index = 0 ∨ 352 ≤ nthAlloc d index := by
  rcases allocBlock_spec (afterAllocs d index) with full | ⟨id, lower, -, -, allocated⟩
  · exact .inl (congrArg Prod.fst full)
  · refine .inr (lower.trans_eq ?_)
    exact (congrArg Prod.fst allocated).symm

theorem nthAlloc_fresh {d : Disk} (clear : ∀ b, b < 2048 → marked d b = false) {index : Nat}
    (few : index < 1696) :
    nthAlloc d index = 352 + index ∧
      ∀ b, b < 2048 → marked (afterAllocs d index) b = decide (352 ≤ b ∧ b < 352 + index) := by
  have allocated : ∀ taken, taken < 1696 →
      (∀ b, b < 2048 →
        marked (afterAllocs d taken) b = decide (352 ≤ b ∧ b < 352 + taken)) →
      allocBlock (afterAllocs d taken) =
        (352 + taken, setMark (afterAllocs d taken) (352 + taken)) := by
    intro taken below marks
    apply allocBlock_least (by omega) (by omega)
    · rw [marks _ (by omega), decide_eq_false_iff_not]
      omega
    · intro c lower upper
      rw [marks c (by omega), decide_eq_true_eq]
      omega
  have marks : ∀ b, b < 2048 →
      marked (afterAllocs d index) b = decide (352 ≤ b ∧ b < 352 + index) := by
    induction index with
    | zero =>
        intro b below
        change marked d b = _
        rw [clear b below, eq_comm, decide_eq_false_iff_not]
        omega
    | succ index ih =>
        intro b below
        have marksIndex := ih (by omega)
        change marked (allocBlock (afterAllocs d index)).2 b = _
        rw [allocated index (by omega) marksIndex, marked_setMark _ (by omega),
          marksIndex b below, bblock_eq, bblock_eq, ← Bool.decide_or]
        apply decide_eq_decide.mpr
        omega
  refine ⟨?_, marks⟩
  unfold nthAlloc
  rw [allocated index few marks]

theorem allocsSucceed_fresh {d : Disk} (clear : ∀ b, b < 2048 → marked d b = false) {count : Nat}
    (few : count ≤ 1696) : AllocsSucceed d count := by
  intro index below
  rw [(nthAlloc_fresh clear (by omega)).1]
  omega

/-! ### `free_block` -/

theorem freeBlock_apply (d : Disk) (id b address : Nat) :
    (freeBlock d id).blocks b address =
      if b < 32768 ∧ b = bblock id ∧ address = id % 256 / 8 then
        if d.blocks b address = 0 then 0 else 1
      else d.blocks b address := by
  have position : id % bpb % 256 = id % 256 := by
    change id % 4096 % 256 = id % 256
    omega
  have mask : ∀ k : Nat, ~~~((1 : Int) <<< k) ≠ 0 := by
    intro k zero
    change Int.negSucc (1 <<< k) = 0 at zero
    cases zero
  unfold freeBlock
  simp only [position, ne_eq, mask, not_false_eq_true, true_and]
  rw [Disk.writeBlock_apply]
  by_cases onDisk : bblock id < 32768 ∧ b = bblock id ∧ address < 512
  · obtain ⟨below, rfl, inBlock⟩ := onDisk
    have old : d.readBlock (bblock id) (fun _ => 0) 0 address = d.blocks (bblock id) address := by
      rw [Disk.readBlock_apply, if_pos ⟨below, Nat.zero_le _, by omega⟩, Nat.sub_zero]
    rw [if_pos ⟨below, rfl, inBlock⟩]
    by_cases sameByte : address = id % 256 / 8
    · rw [← sameByte, Function.update_self, old, ite_not]
      exact (if_pos ⟨below, rfl, rfl⟩).symm
    · rw [Function.update_of_ne sameByte, old]
      exact (if_neg (fun all => sameByte all.2.2)).symm
  · rw [if_neg onDisk, if_neg]
    intro all
    exact onDisk ⟨by omega, by omega, by omega⟩

theorem freeBlock_other (d : Disk) {id b : Nat} (different : b ≠ bblock id) :
    (freeBlock d id).blocks b = d.blocks b := by
  funext address
  rw [freeBlock_apply, if_neg (fun all => different all.2.1)]

/-- Freeing `id` can clear the mark of `b`: the two have their marks in the byte
that `free_block` rewrites, and the mark of `b` is not the bit it may set. -/
def Clears (id b : Nat) : Prop :=
  bblock id = bblock b ∧ id % 256 / 8 = b % 2048 / 8 ∧ b % 8 ≠ 7

instance (id b : Nat) : Decidable (Clears id b) := inferInstanceAs (Decidable (_ ∧ _))

theorem marked_eq_testBit (d : Disk) (b : Nat) :
    marked d b = (d.blocks (bblock b) (b % 2048 / 8)).toNat.testBit (7 - b % 8) := by
  unfold marked
  rw [notFree_eq_testBit]
  have byte : b % bpb / 8 % 256 = b % 2048 / 8 := by
    change b % 4096 / 8 % 256 = b % 2048 / 8
    omega
  have bit : b % bpb % 8 = b % 8 := by
    change b % 4096 % 8 = b % 8
    omega
  rw [byte, bit]

theorem marked_freeBlock {d : Disk} {id b : Nat} (was : marked d b = true)
    (kept : ¬Clears id b) : marked (freeBlock d id) b = true := by
  rw [marked_eq_testBit] at was ⊢
  rw [freeBlock_apply]
  split
  · rename_i here
    have last : b % 8 = 7 := by
      by_contra different
      exact kept ⟨by omega, by omega, different⟩
    have nonzero : d.blocks (bblock b) (b % 2048 / 8) ≠ 0 := by
      intro zero
      rw [zero] at was
      simp at was
    rw [if_neg nonzero, last]
    rfl
  · exact was

/-- The allocator's first block is never given back: its mark lies in a byte
that `free_block` cannot address. -/
theorem not_clears_firstData (id : Nat) : ¬Clears id firstData := by
  rintro ⟨-, sameByte, -⟩
  rw [firstData_eq] at sameByte
  omega

/-- No `free_block` call reaches the byte that holds the mark of the first data block. -/
theorem marked_firstData_freeBlock (d : Disk) (id : Nat) :
    marked (freeBlock d id) firstData = marked d firstData := by
  rw [marked_eq_testBit, marked_eq_testBit, freeBlock_apply, firstData_eq,
    if_neg (fun all => by have := all.2.2; omega)]

def freeAll (d : Disk) (ids : List Nat) : Disk := ids.foldl freeBlock d

theorem freeAll_append (d : Disk) (first second : List Nat) :
    freeAll d (first ++ second) = freeAll (freeAll d first) second :=
  List.foldl_append

theorem freeAll_other {d : Disk} {ids : List Nat} {b : Nat}
    (onDisk : ∀ id ∈ ids, id < 32768) (outside : 10 ≤ b) :
    (freeAll d ids).blocks b = d.blocks b := by
  refine Loop.foldl_invariant (fun after : Disk => after.blocks b = d.blocks b) rfl ?_
  intro after id member same
  have upper := onDisk id member
  rw [freeBlock_other after (by rw [bblock_eq]; omega)]
  exact same

theorem marked_freeAll {d : Disk} {ids : List Nat} {b : Nat} (was : marked d b = true)
    (kept : ∀ id ∈ ids, ¬Clears id b) : marked (freeAll d ids) b = true :=
  Loop.foldl_invariant (fun after => marked after b = true) was
    (fun _after id member marks => marked_freeBlock marks (kept id member))

theorem marked_firstData_freeAll (d : Disk) (ids : List Nat) :
    marked (freeAll d ids) firstData = marked d firstData :=
  Loop.foldl_invariant (fun after => marked after firstData = marked d firstData) rfl
    (fun after id _member same => (marked_firstData_freeBlock after id).trans same)

end CseLab.FileSystem
