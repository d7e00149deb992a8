import CseLab.FileSystem.Marks
import CseLab.FileSystem.WriteFile
import CseLab.FileSystem.Stepwise

/-! What two `put` handlers on one disk need of each other. A `World` is the
disk together with the blocks each handler has been given so far; as long as no
handler writes a block that the other has read and is about to write back, the
allocations come in the order of a single caller, and each handler keeps the
blocks and the inode record of the other. -/

namespace CseLab.FileSystem

open ByteMemory Interleaving

inductive Handler where
  | first
  | second
deriving DecidableEq

instance : Fintype Handler where
  elems := {.first, .second}
  complete := fun h => by cases h <;> decide

theorem Handler.pairwise (apart : Handler → Handler → Prop)
    (turn : ∀ h other, apart h other → apart other h) (pair : apart .first .second)
    {h other : Handler} (different : other ≠ h) : apart h other := by
  cases h with
  | first =>
      cases other with
      | first => exact absurd rfl different
      | second => exact pair
  | second =>
      cases other with
      | first => exact turn .first .second pair
      | second => exact absurd rfl different

/-- The operation writes the block that the other handler is about to write. -/
def DiskOp.Overlaps : DiskOp → Option DiskOp → Prop
  | .writeBlock id _, some (.writeBlock other _) => id = other
  | _, _ => False

instance (op : DiskOp) (pending : Option DiskOp) : Decidable (op.Overlaps pending) :=
  match op, pending with
  | .writeBlock id _, some (.writeBlock other _) => inferInstanceAs (Decidable (id = other))
  | .writeBlock _ _, some (.readBlock _ _ _) => isFalse id
  | .writeBlock _ _, none => isFalse id
  | .readBlock _ _ _, _ => isFalse id

/-! ### The order of allocations -/

theorem nthAlloc_firstClear {d : Disk} {total call : Nat} (succeed : AllocsSucceed d total)
    (below : call < total) : FirstClear (afterAllocs d call) (nthAlloc d call) :=
  (allocBlock_firstClear (succeed call below)).1

theorem nthAlloc_mono {d : Disk} {total call later : Nat} (succeed : AllocsSucceed d total)
    (order : call ≤ later) (below : later < total) : nthAlloc d call ≤ nthAlloc d later := by
  by_contra after
  have earlier : call < total := by omega
  have first := nthAlloc_firstClear succeed earlier
  have next := nthAlloc_firstClear succeed below
  have marks := first.before _ next.lower (Nat.not_le.mp after)
  have still := marked_afterAllocs_mono order marks
  rw [next.clear] at still
  cases still

/-- The byte that `free_block` rewrites holds no mark from the first data block
up to a block, if it clears none of these marks. -/
theorem marked_freeBlock_eq {d : Disk} {id bound b : Nat}
    (spares : ∀ c, 352 ≤ c → c ≤ bound → ¬Clears id c) (lower : 352 ≤ b) (upper : b ≤ bound) :
    marked (freeBlock d id) b = marked d b := by
  rw [marked_eq_testBit, marked_eq_testBit, freeBlock_apply, if_neg]
  intro here
  by_cases last : b % 8 = 7
  · apply spares (b - 7) (by omega) (by omega)
    simp only [bblock_eq] at here
    refine ⟨?_, by omega, by omega⟩
    simp only [bblock_eq]
    omega
  · exact spares b lower upper ⟨here.2.1.symm, here.2.2.symm, last⟩

/-! ### Two files to write -/

def allocsOfPut (originalBlock blockCount : Nat) : Nat :=
  if originalBlock < blockCount then allocCount originalBlock blockCount else 0

section Puts

variable (d : Disk) (inum : Handler → Nat) (ino : Handler → Inode) (count : Handler → Nat)

def need (h : Handler) : Nat := allocsOfPut (fileBlocks (ino h)) (count h)

def totalNeed : Nat := need ino count .first + need ino count .second

/-- Two live files that share no blocks, each to be written with its number of
blocks: the blocks they have are marked, neither is past the direct blocks both
before and after, the blocks they gain are there, `free_block` clears no mark up
to the last of these, and the last inode, which lies in data, is not overwritten. -/
structure PutsApart : Prop where
  distinct : inum .first ≠ inum .second
  live : ∀ h, getInode d (inum h) = some (ino h)
  owned : ∀ h, Owned d (ino h)
  disjoint : ∀ b ∈ references d (ino .first), b ∉ references d (ino .second)
  oneSide : ∀ h, fileBlocks (ino h) ≤ 32 ∨ count h ≤ 32
  few : ∀ h, count h ≤ 160
  succeed : AllocsSucceed d (totalNeed ino count)
  spares : ∀ h, ∀ id ∈ freedByPut d (ino h) (count h), ∀ call < totalNeed ino count,
    ∀ b, 352 ≤ b → b ≤ nthAlloc d call → ¬Clears id b
  last : ∀ h, inum h = inodeNum - 1 → marked d firstData = false ∧ totalNeed ino count = 0

variable {d inum ino count} in
theorem PutsApart.records_apart (apart : PutsApart d inum ino count) {h other : Handler}
    (different : other ≠ h) : inum other ≠ inum h :=
  Handler.pairwise (fun h other => inum other ≠ inum h) (fun _ _ => Ne.symm)
    apart.distinct.symm different

variable {d inum ino count} in
theorem PutsApart.references_apart (apart : PutsApart d inum ino count) {h other : Handler}
    (different : other ≠ h) : ∀ b ∈ references d (ino h), b ∉ references d (ino other) :=
  Handler.pairwise (fun h other => ∀ b ∈ references d (ino h), b ∉ references d (ino other))
    (fun _ _ pair b old mine => pair b mine old) apart.disjoint different

/-- The disk and the blocks each handler has allocated, in order. Up to the last
block that will be needed the marks are those of one caller's allocations. -/
structure World where
  disk : Disk
  fresh : Handler → List Nat
  budget : ∀ h, (fresh h).length ≤ need ino count h
  marks : ∀ call < totalNeed ino count, ∀ b, 352 ≤ b → b ≤ nthAlloc d call →
    marked disk b =
      marked (afterAllocs d ((fresh .first).length + (fresh .second).length)) b
  origin : ∀ h, ∀ b ∈ fresh h,
    ∃ call < (fresh .first).length + (fresh .second).length, nthAlloc d call = b
  nodup : ∀ h, (fresh h).Nodup
  disjoint : ∀ b ∈ fresh .first, b ∉ fresh .second

def World.start : World d ino count where
  disk := d
  fresh := fun _ => []
  budget := fun _ => Nat.zero_le _
  marks := fun _ _ _ _ _ => rfl
  origin := fun _ _ member => absurd member List.not_mem_nil
  nodup := fun _ => List.nodup_nil
  disjoint := fun _ member => absurd member List.not_mem_nil

end Puts

def give (fresh : Handler → List Nat) (h : Handler) (b : Nat) : Handler → List Nat :=
  Function.update fresh h (fresh h ++ [b])

theorem give_self (fresh : Handler → List Nat) (h : Handler) (b : Nat) :
    give fresh h b h = fresh h ++ [b] := Function.update_self _ _ _

theorem give_other (fresh : Handler → List Nat) {h other : Handler} (b : Nat)
    (different : other ≠ h) : give fresh h b other = fresh other :=
  Function.update_of_ne different _ _

theorem mem_give {fresh : Handler → List Nat} {h other : Handler} {b c : Nat} :
    c ∈ give fresh h b other ↔ c ∈ fresh other ∨ (other = h ∧ c = b) := by
  by_cases same : other = h
  · subst same
    simp [give_self]
  · simp [give_other _ _ same, same]

theorem give_length (fresh : Handler → List Nat) (h : Handler) (b : Nat) :
    (give fresh h b .first).length + (give fresh h b .second).length =
      (fresh .first).length + (fresh .second).length + 1 := by
  cases h with
  | first =>
      rw [give_self, give_other _ _ (by decide), List.length_append, List.length_singleton]
      omega
  | second =>
      rw [give_self, give_other _ _ (by decide), List.length_append, List.length_singleton]
      omega

namespace World

variable {d : Disk} {inum : Handler → Nat} {ino : Handler → Inode} {count : Handler → Nat}

def calls (w : World d ino count) : Nat := (w.fresh .first).length + (w.fresh .second).length

/-- The blocks of a handler: those its file had and those it was given. -/
def Claims (w : World d ino count) (h : Handler) (b : Nat) : Prop :=
  b ∈ references d (ino h) ∨ b ∈ w.fresh h

theorem calls_le (w : World d ino count) : w.calls ≤ totalNeed ino count :=
  Nat.add_le_add (w.budget .first) (w.budget .second)

theorem calls_lt (w : World d ino count) {h : Handler}
    (room : (w.fresh h).length < need ino count h) : w.calls < totalNeed ino count := by
  have first := w.budget .first
  have second := w.budget .second
  unfold calls totalNeed
  cases h with
  | first => omega
  | second => omega

theorem fresh_spec (apart : PutsApart d inum ino count) (w : World d ino count) {h : Handler}
    {b : Nat} (member : b ∈ w.fresh h) : 352 ≤ b ∧ b < 32768 ∧ marked d b = false := by
  obtain ⟨call, below, rfl⟩ := w.origin h b member
  have inside : call < totalNeed ino count := Nat.lt_of_lt_of_le below w.calls_le
  obtain ⟨lower, upper, -, -⟩ := nthAlloc_spec apart.succeed inside
  exact ⟨lower, upper, marked_nthAlloc apart.succeed inside⟩

theorem Claims.data (apart : PutsApart d inum ino count) {w : World d ino count} {h : Handler}
    {b : Nat} (claimed : w.Claims h b) : 352 ≤ b ∧ b < 32768 := by
  rcases claimed with old | new
  · exact (apart.owned h).inData b old
  · obtain ⟨lower, upper, -⟩ := fresh_spec apart w new
    exact ⟨lower, upper⟩

theorem fresh_not_old (apart : PutsApart d inum ino count) (w : World d ino count)
    {h other : Handler} {b : Nat} (new : b ∈ w.fresh h) (old : b ∈ references d (ino other)) :
    False := by
  obtain ⟨-, -, clear⟩ := fresh_spec apart w new
  have marks := (apart.owned other).marks b old
  rw [clear] at marks
  cases marks

theorem fresh_apart (w : World d ino count) {h other : Handler} (different : other ≠ h) :
    ∀ b ∈ w.fresh h, b ∉ w.fresh other :=
  Handler.pairwise (fun h other => ∀ b ∈ w.fresh h, b ∉ w.fresh other)
    (fun _ _ pair b given mine => pair b mine given) w.disjoint different

theorem Claims.apart (apart : PutsApart d inum ino count) {w : World d ino count}
    {h other : Handler} {b : Nat} (different : other ≠ h) (claimed : w.Claims h b) :
    ¬w.Claims other b := by
  intro otherClaims
  rcases claimed with old | new
  · rcases otherClaims with otherOld | otherNew
    · exact apart.references_apart different b old otherOld
    · exact fresh_not_old apart w otherNew old
  · rcases otherClaims with otherOld | otherNew
    · exact fresh_not_old apart w new otherOld
    · exact w.fresh_apart different b new otherNew

theorem Claims.not_record (apart : PutsApart d inum ino count) {w : World d ino count}
    {h : Handler} {b : Nat} (claimed : w.Claims h b) (other : Handler) :
    b ≠ 11 + inum other / 3 := by
  rintro rfl
  have lower := (claimed.data apart).1
  have inTable := getInode_lt (apart.live other)
  have isLast : inum other = inodeNum - 1 := by
    change inum other = 1023
    omega
  obtain ⟨clear, noneNeeded⟩ := apart.last other isLast
  rcases claimed with old | new
  · have marks := (apart.owned h).marks _ old
    have lastRecord : 11 + (inodeNum - 1) / 3 = firstData := rfl
    rw [isLast, lastRecord, clear] at marks
    cases marks
  · obtain ⟨call, below, -⟩ := w.origin h _ new
    have few := w.calls_le
    unfold calls at few
    omega

theorem marked_next (apart : PutsApart d inum ino count) (w : World d ino count) {h : Handler}
    (room : (w.fresh h).length < need ino count h) {b : Nat} (lower : 352 ≤ b)
    (upper : b ≤ nthAlloc d w.calls) :
    marked w.disk b = true ↔ b ≠ nthAlloc d w.calls := by
  have below := w.calls_lt room
  have first := nthAlloc_firstClear apart.succeed below
  rw [w.marks _ below b lower upper]
  change marked (afterAllocs d w.calls) b = true ↔ _
  constructor
  · rintro marks rfl
    rw [first.clear] at marks
    cases marks
  · intro different
    exact first.before b lower (by omega)

/-! ### Steps of a handler -/

theorem next_not_fresh (apart : PutsApart d inum ino count) (w : World d ino count) {h : Handler}
    (room : (w.fresh h).length < need ino count h) (other : Handler) :
    nthAlloc d w.calls ∉ w.fresh other := by
  intro member
  obtain ⟨call, below, same⟩ := w.origin other _ member
  change call < w.calls at below
  have inside := w.calls_lt room
  have equal := nthAlloc_injective apart.succeed (below.trans inside) inside same
  omega

def withDisk (w : World d ino count) (disk : Disk)
    (same : ∀ call < totalNeed ino count, ∀ b, 352 ≤ b → b ≤ nthAlloc d call →
      marked disk b = marked w.disk b) : World d ino count :=
  { w with
    disk := disk
    marks := fun call below b lower upper =>
      (same call below b lower upper).trans (w.marks call below b lower upper) }

def write (apart : PutsApart d inum ino count) (w : World d ino count) (id : Nat) (buf : Memory)
    (outside : 10 ≤ id) : World d ino count :=
  w.withDisk (w.disk.writeBlock id buf) (by
    intro call below b lower upper
    obtain ⟨-, onDisk, -, -⟩ := nthAlloc_spec apart.succeed below
    apply marked_congr
    apply Disk.writeBlock_other
    rw [bblock_eq]
    omega)

def free (apart : PutsApart d inum ino count) (w : World d ino count) {h : Handler} {id : Nat}
    (freed : id ∈ freedByPut d (ino h) (count h)) : World d ino count :=
  w.withDisk (freeBlock w.disk id) (fun call below _b lower upper =>
    marked_freeBlock_eq (apart.spares h id freed call below) lower upper)

def take (apart : PutsApart d inum ino count) (w : World d ino count) {h : Handler}
    (room : (w.fresh h).length < need ino count h) : World d ino count where
  disk := setMark w.disk (nthAlloc d w.calls)
  fresh := give w.fresh h (nthAlloc d w.calls)
  budget := by
    intro other
    by_cases same : other = h
    · subst same
      rw [give_self, List.length_append, List.length_singleton]
      exact room
    · rw [give_other _ _ same]
      exact w.budget other
  marks := by
    intro call below b lower upper
    obtain ⟨-, onDisk, -, next⟩ := nthAlloc_spec apart.succeed (w.calls_lt room)
    rw [give_length]
    change _ = marked (afterAllocs d (w.calls + 1)) b
    rw [next, marked_setMark _ onDisk, marked_setMark _ onDisk, w.marks call below b lower upper]
    rfl
  origin := by
    intro other b member
    rw [give_length]
    rcases mem_give.mp member with already | ⟨-, rfl⟩
    · obtain ⟨call, below, same⟩ := w.origin other b already
      exact ⟨call, by omega, same⟩
    · exact ⟨w.calls, Nat.lt_succ_self _, rfl⟩
  nodup := by
    intro other
    by_cases same : other = h
    · subst same
      rw [give_self, List.nodup_append]
      refine ⟨w.nodup other, List.nodup_singleton _, ?_⟩
      rintro b member _ single rfl
      rw [List.mem_singleton] at single
      exact w.next_not_fresh apart room other (single ▸ member)
    · rw [give_other _ _ same]
      exact w.nodup other
  disjoint := by
    intro b inFirst inSecond
    rcases mem_give.mp inFirst with oldFirst | ⟨isFirst, rfl⟩
    · rcases mem_give.mp inSecond with oldSecond | ⟨-, rfl⟩
      · exact w.disjoint b oldFirst oldSecond
      · exact w.next_not_fresh apart room _ oldFirst
    · rcases mem_give.mp inSecond with oldSecond | ⟨isSecond, -⟩
      · exact w.next_not_fresh apart room _ oldSecond
      · cases isFirst.trans isSecond.symm

end World

/-! ### Rely and guarantee -/

section Sharing

variable {d : Disk} {inum : Handler → Nat} {ino : Handler → Inode} {count : Handler → Nat}

/-- What a handler relies on while it is about to call an operation, or none:
the others keep its blocks, its inode record and the block it is about to write. -/
structure Rely (inum : Handler → Nat) (h : Handler) (pending : Option DiskOp)
    (w later : World d ino count) : Prop where
  fresh : later.fresh h = w.fresh h
  calls : w.calls ≤ later.calls
  blocks : ∀ b, w.Claims h b → later.disk.blocks b = w.disk.blocks b
  record : getInode later.disk (inum h) = getInode w.disk (inum h)
  pending : ∀ id buf, pending = some (.writeBlock id buf) →
    later.disk.blocks id = w.disk.blocks id

theorem Rely.claims {h : Handler} {pending : Option DiskOp} {w later : World d ino count}
    (relied : Rely inum h pending w later) {b : Nat} : later.Claims h b ↔ w.Claims h b := by
  unfold World.Claims
  rw [relied.fresh]

theorem Rely.trans {h : Handler} {pending : Option DiskOp} {first second third : World d ino count}
    (before : Rely inum h pending first second) (after : Rely inum h pending second third) :
    Rely inum h pending first third where
  fresh := after.fresh.trans before.fresh
  calls := before.calls.trans after.calls
  blocks := fun b claimed =>
    (after.blocks b (before.claims.mpr claimed)).trans (before.blocks b claimed)
  record := after.record.trans before.record
  pending := fun id buf here =>
    (after.pending id buf here).trans (before.pending id buf here)

theorem Rely.forget {h : Handler} {pending : Option DiskOp} {w later : World d ino count}
    (relied : Rely inum h pending w later) : Rely inum h none w later :=
  { relied with pending := fun _ _ none => nomatch none }

variable (d inum ino count) in
def sharing : Discipline Handler (World d ino count) Disk DiskOp Memory where
  act := Disk.act
  view := World.disk
  clash := DiskOp.Overlaps
  rely := Rely inum
  rely_refl := fun _ _ _ => ⟨rfl, Nat.le_refl _, fun _ _ => rfl, rfl, fun _ _ _ => rfl⟩
  rely_trans := fun _ _ _ _ _ before after => before.trans after

structure Writes (inum : Handler → Nat) (h : Handler) (id : Nat) (buf : Memory)
    (w after : World d ino count) : Prop where
  disk : after.disk = w.disk.writeBlock id buf
  fresh : ∀ other, other ≠ h → after.fresh other = w.fresh other
  calls : w.calls ≤ after.calls
  unclaimed : ∀ other, other ≠ h → ¬w.Claims other id
  record : ∀ other, other ≠ h → getInode after.disk (inum other) = getInode w.disk (inum other)

theorem Writes.keeps {h : Handler} {id : Nat} {buf : Memory} {w after : World d ino count}
    (writes : Writes inum h id buf w after) (other : Handler) (different : other ≠ h)
    (pending : Option DiskOp) (apart : ¬DiskOp.Overlaps (.writeBlock id buf) pending) :
    Rely inum other pending w after where
  fresh := writes.fresh other different
  calls := writes.calls
  blocks := by
    intro b claimed
    rw [writes.disk]
    apply Disk.writeBlock_other
    rintro rfl
    exact writes.unclaimed other different claimed
  record := writes.record other different
  pending := by
    rintro id' buf' rfl
    rw [writes.disk]
    exact Disk.writeBlock_other _ _ (fun same => apart same.symm)

variable {h : Handler} {w : World d ino count}

theorem World.write_block (apart : PutsApart d inum ino count) {id : Nat} (buf : Memory)
    (claimed : w.Claims h id) (outside : 10 ≤ id) :
    Writes inum h id buf w (w.write apart id buf outside) where
  disk := rfl
  fresh := fun _ _ => rfl
  calls := Nat.le_refl _
  unclaimed := fun _ different => claimed.apart apart different
  record := fun other _ =>
    getInode_congr (Disk.writeBlock_other _ _ (claimed.not_record apart other).symm)

theorem World.write_record (apart : PutsApart d inum ino count) (next : Inode)
    (outside : 10 ≤ 11 + inum h / 3) :
    Writes inum h (11 + inum h / 3)
      (next.store (w.disk.readBlock (11 + inum h / 3) (fun _ => 0) 0) (inodeBase (inum h))) w
      (w.write apart (11 + inum h / 3)
        (next.store (w.disk.readBlock (11 + inum h / 3) (fun _ => 0) 0) (inodeBase (inum h)))
        outside) where
  disk := rfl
  fresh := fun _ _ => rfl
  calls := Nat.le_refl _
  unclaimed := fun _ _ claimed => claimed.not_record apart h rfl
  record := by
    intro other different
    have stored := getInode_putInode_other w.disk next (getInode_lt (apart.live h))
      (apart.records_apart different)
    unfold putInode at stored
    rw [iblock_eq] at stored
    exact stored

theorem World.free_block (apart : PutsApart d inum ino count) {id : Nat} {buf : Memory}
    (freed : id ∈ freedByPut d (ino h) (count h)) (onDisk : id < 32768)
    (disk : freeBlock w.disk id = w.disk.writeBlock (bblock id) buf) :
    Writes inum h (bblock id) buf w (w.free apart freed) := by
  refine ⟨disk, fun _ _ => rfl, Nat.le_refl _, ?_, ?_⟩
  · intro other _different claimed
    have lower := (claimed.data apart).1
    rw [bblock_eq] at lower
    omega
  · intro other _different
    apply getInode_congr
    apply freeBlock_other
    rw [bblock_eq]
    omega

theorem World.take_block (apart : PutsApart d inum ino count) {buf : Memory}
    (room : (w.fresh h).length < need ino count h)
    (disk : setMark w.disk (nthAlloc d w.calls) =
      w.disk.writeBlock (bblock (nthAlloc d w.calls)) buf) :
    Writes inum h (bblock (nthAlloc d w.calls)) buf w (w.take apart room) := by
  obtain ⟨-, onDisk, -, -⟩ := nthAlloc_spec apart.succeed (w.calls_lt room)
  refine ⟨disk, fun other different => give_other _ _ different, ?_, ?_, ?_⟩
  · unfold World.calls World.take
    rw [give_length]
    omega
  · intro other _different claimed
    have lower := (claimed.data apart).1
    rw [bblock_eq] at lower
    omega
  · intro other _different
    apply getInode_congr
    apply setMark_other
    rw [bblock_eq]
    omega

/-! ### The accesses of a handler -/

variable {Result : Type} {post : Result → World d ino count → Prop}

theorem safe_read {id offset : Nat} {buf : Memory} {next : Memory → DiskScript Result}
    (goes : ∀ later, Rely inum h none w later →
      (sharing d inum ino count).Safe h post (next (later.disk.readBlock id buf offset)) later) :
    (sharing d inum ino count).Safe h post (.call (.readBlock id buf offset) next) w :=
  fun later relied =>
    ⟨later, rfl, fun other _ pending _ => (sharing d inum ino count).rely_refl other pending later,
      goes later relied.forget⟩

theorem safe_write (apart : PutsApart d inum ino count) {id : Nat} {buf : Memory}
    {next : Memory → DiskScript Result} (claimed : w.Claims h id)
    (goes : ∀ later outside, Rely inum h none w later →
      (sharing d inum ino count).Safe h post (next buf) (later.write apart id buf outside)) :
    (sharing d inum ino count).Safe h post (.call (.writeBlock id buf) next) w := by
  intro later relied
  have outside : 10 ≤ id := by
    have lower := (claimed.data apart).1
    omega
  have writes := later.write_block apart buf (relied.claims.mpr claimed) outside
  exact ⟨later.write apart id buf outside, writes.disk, writes.keeps,
    goes later outside relied.forget⟩

/-- A block is read, changed and written back, and nobody has written it meanwhile. -/
theorem safe_update {id : Nat} {change : Memory → Memory} {next : Memory → DiskScript Result}
    (goes : ∀ last : World d ino count, Rely inum h none w last → ∃ after : World d ino count,
      Writes inum h id (change (last.disk.readBlock id (fun _ => 0) 0)) last after ∧
      (sharing d inum ino count).Safe h post
        (next (change (last.disk.readBlock id (fun _ => 0) 0))) after) :
    (sharing d inum ino count).Safe h post
      (.call (.readBlock id (fun _ => 0) 0) (fun buf => .call (.writeBlock id (change buf)) next))
      w := by
  apply safe_read
  intro later relied last reliedWrite
  have same : later.disk.readBlock id (fun _ => 0) 0 = last.disk.readBlock id (fun _ => 0) 0 := by
    unfold Disk.readBlock
    rw [reliedWrite.pending _ _ rfl]
  rw [same]
  obtain ⟨after, writes, safe⟩ := goes last (relied.trans reliedWrite.forget)
  exact ⟨after, writes.disk, writes.keeps, safe⟩

end Sharing

end CseLab.FileSystem
