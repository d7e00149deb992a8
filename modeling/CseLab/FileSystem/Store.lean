import CseLab.FileSystem.Handlers

/-! What the server is for: a table of files under numbers. Each handler, in a
state and on a request where it may be trusted, takes one step of the table. -/

namespace CseLab.FileSystem

open ByteMemory Transition

structure File where
  type : UInt16
  bytes : List UInt8
deriving DecidableEq

abbrev Store := Nat → Option File

namespace Store

inductive Step : Store → Request → Store → Prop
  | created {store : Store} {type : FileType} {uninit : Uninit} {inum : Nat}
      (positive : 0 < inum) (fresh : store inum = none) :
      Step store (.create type uninit)
        (Function.update store inum (some ⟨type.code.toUInt16, []⟩))
  | full {store : Store} {type : FileType} {uninit : Uninit} :
      Step store (.create type uninit) store
  | stored {store : Store} {id : Nat} {buf : List UInt8} {uninit : Uninit} {file : File}
      (present : store (maskId id) = some file) :
      Step store (.put id buf uninit) (Function.update store (maskId id)
        (some { file with bytes := buf.take (buf.length % 2 ^ 32) }))
  | absent {store : Store} {id : Nat} {buf : List UInt8} {uninit : Uninit}
      (missing : store (maskId id) = none) : Step store (.put id buf uninit) store
  | refused {store : Store} {id : Nat} {buf : List UInt8} {uninit : Uninit}
      (large : maxfile < toUint32 (ceilInt (Int.bmod buf.length (2 ^ 32)) blockSize)) :
      Step store (.put id buf uninit) store
  | got {store : Store} {id : Nat} {uninit : Uninit} : Step store (.get id uninit) store
  | gotAttr {store : Store} {id : Nat} : Step store (.getattr id) store
  | removed {store : Store} {id : Nat} {uninit : Uninit} :
      Step store (.remove id uninit) (Function.update store (maskId id) none)

end Store

def Request.target : Request → Option Nat
  | .put id _ _ => some (maskId id)
  | .remove id _ => some (maskId id)
  | .create _ _ => none
  | .get _ _ => none
  | .getattr _ => none

theorem Store.Step.frame {store next : Store} {request : Request} {inum : Nat} {file : File}
    (step : Store.Step store request next) (present : store inum = some file)
    (different : request.target ≠ some inum) : next inum = some file := by
  cases step with
  | created positive fresh =>
      rw [Function.update_of_ne, present]
      rintro rfl
      rw [fresh] at present
      cases present
  | full => exact present
  | stored here =>
      rw [Function.update_of_ne (fun same => different (congrArg some same.symm)), present]
  | absent missing => exact present
  | refused large => exact present
  | got => exact present
  | gotAttr => exact present
  | removed =>
      rw [Function.update_of_ne (fun same => different (congrArg some same.symm)), present]

/-! ### The table of a disk -/

/-- The files on the disk; the last inode counts until its block is marked. -/
def files (d : Disk) : Store := fun inum =>
  match getInode d inum with
  | none => none
  | some ino =>
      if inum = inodeNum - 1 ∧ marked d firstData = true then none
      else some ⟨ino.type, contents d ino⟩

theorem files_missing {d : Disk} {inum : Nat} (missing : getInode d inum = none) :
    files d inum = none := by
  unfold files
  rw [missing]

theorem files_eq_some {d : Disk} {inum : Nat} {file : File} :
    files d inum = some file ↔
      ∃ ino, FileAt d inum ino ∧ file = ⟨ino.type, contents d ino⟩ := by
  unfold files
  constructor
  · intro present
    cases found : getInode d inum with
    | none =>
        rw [found] at present
        cases present
    | some ino =>
        rw [found] at present
        simp only at present
        split at present
        · cases present
        · rename_i own
          refine ⟨ino, ⟨found, fun isLast => ?_⟩, (Option.some.inj present).symm⟩
          exact Bool.eq_false_of_not_eq_true (fun marks => own ⟨isLast, marks⟩)
  · rintro ⟨ino, ⟨found, last⟩, rfl⟩
    rw [found]
    apply if_neg
    rintro ⟨isLast, marks⟩
    rw [last isLast] at marks
    cases marks

theorem files_of_file {d : Disk} {inum : Nat} {ino : Inode} (file : FileAt d inum ino) :
    files d inum = some ⟨ino.type, contents d ino⟩ :=
  files_eq_some.mpr ⟨ino, file, rfl⟩

theorem files_eq_none {d : Disk} {inum : Nat} :
    files d inum = none ↔ ∀ ino, ¬FileAt d inum ino := by
  constructor
  · intro missing ino file
    rw [files_of_file file] at missing
    cases missing
  · intro missing
    cases present : files d inum with
    | none => rfl
    | some file =>
        obtain ⟨ino, here, -⟩ := files_eq_some.mp present
        exact absurd here (missing ino)

theorem files_update {d after : Disk} {inum : Nat} {value : Option File}
    (untouched : Untouched d inum after) (here : files after inum = value) :
    files after = Function.update (files d) inum value := by
  funext other
  by_cases same : other = inum
  · subst same
    rw [Function.update_self, here]
  · rw [Function.update_of_ne same]
    cases present : files d other with
    | none =>
        rw [files_eq_none] at present ⊢
        intro ino file
        exact present ino ((untouched.files other ino same).mp file)
    | some file =>
        obtain ⟨ino, before, rfl⟩ := files_eq_some.mp present
        rw [files_of_file ((untouched.files other ino same).mpr before),
          untouched.contents_eq same before]

/-! ### Trusted steps -/

/-- The condition on a state and a request under which the handler neither
loses a block nor touches what is not its own. -/
def StepOk (d : Disk) : Request → Prop
  | .create _ _ => CreateOk d
  | .put id buf _ => ∀ ino, getInode d (maskId id) = some ino →
      toUint32 (ceilInt (Int.bmod buf.length (2 ^ 32)) blockSize) ≤ maxfile →
      0 ≤ Int.bmod buf.length (2 ^ 32) ∧
        WriteOk d (maskId id) ino ((buf.length % 2 ^ 32 + 511) / 512)
  | .get _ _ => True
  | .getattr _ => True
  | .remove id _ => ∀ ino, getInode d (maskId id) = some ino → RemoveOk d (maskId id) ino

theorem size_small {buf : List UInt8} (nonneg : 0 ≤ Int.bmod buf.length (2 ^ 32))
    (fits : toUint32 (ceilInt (Int.bmod buf.length (2 ^ 32)) blockSize) ≤ maxfile) :
    buf.length % 2 ^ 32 ≤ 81920 := by
  have upper : Int.bmod buf.length (2 ^ 32) < 2 ^ 31 := Int.bmod_lt (by norm_num)
  rw [bmod_length nonneg] at fits upper
  rw [toUint32_ceilInt (by omega), maxfile_eq] at fits
  omega

private theorem put_refines {d : Disk} {id : Nat} {buf : List UInt8} {uninit : Uninit}
    (consistent : Consistent d) (ok : StepOk d (.put id buf uninit)) :
    ∃ after, put d uninit id buf = some after ∧ Consistent after ∧
      Store.Step (files d) (.put id buf uninit) (files after) := by
  by_cases large : maxfile < toUint32 (ceilInt (Int.bmod buf.length (2 ^ 32)) blockSize)
  · exact ⟨d, put_refused uninit large, consistent, .refused large⟩
  · cases found : getInode d (maskId id) with
    | none =>
        refine ⟨d, put_missing uninit buf found, consistent, .absent ?_⟩
        exact files_missing found
    | some ino =>
        obtain ⟨nonneg, writeOk⟩ := ok ino found (Nat.not_lt.mp large)
        have file : FileAt d (maskId id) ino := ⟨found, writeOk.last⟩
        obtain ⟨after, next, ran, stored⟩ := put_spec uninit consistent file nonneg
          (size_small nonneg (Nat.not_lt.mp large)) writeOk
        have here := files_of_file stored.file
        rw [stored.type_eq, stored.contents_eq] at here
        refine ⟨after, ran, stored.consistent, ?_⟩
        rw [files_update stored.untouched here]
        exact .stored (files_of_file file)

private theorem remove_refines {d : Disk} {id : Nat} {uninit : Uninit}
    (consistent : Consistent d) (ok : StepOk d (.remove id uninit)) :
    ∃ after, remove d uninit id = some after ∧ Consistent after ∧
      Store.Step (files d) (.remove id uninit) (files after) := by
  cases found : getInode d (maskId id) with
  | none =>
      refine ⟨d, remove_missing uninit found, consistent, ?_⟩
      have absent := files_missing found
      have step := @Store.Step.removed (files d) id uninit
      rw [← absent, Function.update_eq_self] at step
      exact step
  | some ino =>
      have removeOk := ok ino found
      obtain ⟨after, ran, removed⟩ :=
        remove_spec uninit consistent ⟨found, removeOk.last⟩ removeOk
      refine ⟨after, ran, removed.consistent, ?_⟩
      rw [files_update removed.untouched (files_missing removed.gone)]
      exact .removed

private theorem create_refines {d : Disk} {type : FileType} {uninit : Uninit}
    (consistent : Consistent d) (ok : CreateOk d) :
    Consistent (create d uninit type).2 ∧
      Store.Step (files d) (.create type uninit) (files (create d uninit type).2) := by
  rcases create_spec consistent uninit type ok with full | ⟨inum, after, ran, created⟩
  · rw [full]
    exact ⟨consistent, .full⟩
  · obtain ⟨ino, file, sameType, empty⟩ := created.file
    have noBytes : contents after ino = [] := by
      unfold contents
      rw [empty]
      rfl
    have here := files_of_file file
    rw [sameType, noBytes] at here
    rw [ran]
    refine ⟨created.consistent, ?_⟩
    rw [files_update created.untouched here]
    exact Store.Step.created created.positive (files_missing created.fresh)

/-- One handler, one step of the table. -/
theorem serve_refines {d after : Disk} {request : Request} (consistent : Consistent d)
    (ok : StepOk d request) (served : serve d request = some after) :
    Consistent after ∧ Store.Step (files d) request (files after) := by
  cases request with
  | create type uninit =>
      cases served
      exact create_refines consistent ok
  | put id buf uninit =>
      obtain ⟨next, ran, holds⟩ := put_refines consistent ok
      cases ran.symm.trans served
      exact holds
  | get id uninit =>
      obtain ⟨bytes, -, rfl⟩ := Option.map_eq_some_iff.mp served
      exact ⟨consistent, .got⟩
  | getattr id =>
      cases served
      exact ⟨consistent, .gotAttr⟩
  | remove id uninit =>
      obtain ⟨next, ran, holds⟩ := remove_refines consistent ok
      cases ran.symm.trans served
      exact holds

/-- A handler that may be trusted returns, except for a `get` of the last inode
when it lies in data. -/
theorem serve_total {d : Disk} {request : Request} (consistent : Consistent d)
    (ok : StepOk d request)
    (last : ∀ id uninit, request = .get id uninit → maskId id = inodeNum - 1 →
      marked d firstData = false) :
    ∃ after, serve d request = some after := by
  cases request with
  | create type uninit => exact ⟨_, rfl⟩
  | put id buf uninit =>
      obtain ⟨next, ran, -⟩ := put_refines consistent ok
      exact ⟨next, ran⟩
  | get id uninit =>
      refine ⟨d, Option.map_eq_some_iff.mpr ?_⟩
      cases found : getInode d (maskId id) with
      | none => exact ⟨[], get_missing uninit found, rfl⟩
      | some ino =>
          have owned := consistent.owned _ ino ⟨found, last id uninit rfl⟩
          exact ⟨_, get_spec uninit found owned.readable, rfl⟩
  | getattr id => exact ⟨d, rfl⟩
  | remove id uninit =>
      obtain ⟨next, ran, -⟩ := remove_refines consistent ok
      exact ⟨next, ran⟩

/-! ### Runs -/

theorem getInode_fresh (inum : Nat) : getInode Disk.fresh inum = none := by
  rw [getInode_eq]
  split
  · rfl
  · exact if_pos rfl

theorem marked_fresh (b : Nat) : marked Disk.fresh b = false := by
  rw [marked_eq_testBit]
  exact Nat.zero_testBit _

theorem fresh_consistent : Consistent Disk.fresh := by
  have missing : ∀ inum ino, ¬FileAt Disk.fresh inum ino := by
    intro inum ino file
    have found := file.found
    rw [getInode_fresh] at found
    cases found
  exact ⟨fun inum ino file => absurd file (missing inum ino),
    fun left _right leftIno _rightIno _different file _other => absurd file (missing left leftIno)⟩

theorem construct_consistent (uninit : Uninit) : Consistent (construct uninit) :=
  (create_refines fresh_consistent (fun _free _taken => marked_fresh _)).1

theorem run_consistent {uninit : Uninit} {requests : List Request} {d : Disk}
    (guarded : Guarded serve StepOk (construct uninit) requests)
    (ran : run serve (construct uninit) requests = some d) : Consistent d :=
  guarded.invariant
    (fun _before _request _after consistent ok served =>
      (serve_refines consistent ok served).1)
    (construct_consistent uninit) ran

/-! ### A first write -/

theorem allocInode_low (d : Disk) (uninit : Uninit) (type : UInt32) {b : Nat} (low : b < 11) :
    (allocInode d uninit type).2.blocks b = d.blocks b := by
  rcases allocInode_spec d uninit type with full | ⟨inum, -, -, -, -, allocated⟩
  · rw [full]
  · rw [allocated]
    exact putInode_other d _ (by omega)

theorem clear_low {d : Disk} (same : d.blocks 2 = Disk.fresh.blocks 2) {b : Nat} (below : b < 2048) :
    marked d b = false := by
  have block : bblock b = 2 := by
    rw [bblock_eq]
    omega
  rw [marked_congr (b := b) (block ▸ same), marked_fresh]

theorem createOk_low {d : Disk} (same : d.blocks 2 = Disk.fresh.blocks 2) : CreateOk d := by
  intro _unused _taken
  exact clear_low same (by decide)

theorem WriteOk.first {d : Disk} {inum blockCount : Nat} {ino : Inode}
    (clear : ∀ b, b < 2048 → marked d b = false) (unused : getInode d (inodeNum - 1) = none)
    (empty : ino.size = 0) (notLast : inum ≠ inodeNum - 1) (any : 0 < blockCount)
    (few : blockCount ≤ 160) : WriteOk d inum ino blockCount := by
  have zero : fileBlocks ino = 0 := by
    unfold fileBlocks
    rw [empty]
    rfl
  refine ⟨⟨Or.inl (by omega), ?_, fun isLast => absurd isLast notLast⟩,
    fun isLast => absurd isLast notLast, fun _grows _clear => unused, ?_⟩
  · intro _grows
    apply allocsSucceed_fresh clear
    unfold allocCount
    split <;> omega
  · intro id freed
    unfold freedByPut at freed
    rw [if_pos (by omega)] at freed
    cases freed

theorem StepOk.put_first {d : Disk} {id : Nat} {buf : List UInt8}
    (clear : ∀ b, b < 2048 → marked d b = false) (unused : getInode d (inodeNum - 1) = none)
    (empty : ∀ ino, getInode d (maskId id) = some ino → ino.size = 0)
    (notLast : maskId id ≠ inodeNum - 1) (any : 0 < buf.length) (small : buf.length ≤ 81920)
    (memory : Uninit) : StepOk d (.put id buf memory) := by
  have whole : buf.length % 2 ^ 32 = buf.length := Nat.mod_eq_of_lt (by omega)
  have size : Int.bmod buf.length (2 ^ 32) = (buf.length : Int) := by
    apply Int.bmod_eq_of_le <;> omega
  intro ino found _fits
  rw [size, whole]
  exact ⟨by omega, WriteOk.first clear unused (empty ino found) notLast (by omega) (by omega)⟩

end CseLab.FileSystem
