import CseLab.FileSystem.ConcurrentPut
import CseLab.FileSystem.Writing

/-! One handler that writes beside any number of `get` and `getattr` handlers of other
files. The handlers hold no lock, but the readers meet only accesses that have left
their files as they were. -/

namespace CseLab.FileSystem

open ByteMemory Interleaving Transition

section Reader

variable {d : Disk} {target : Option Nat} {inum : Nat} {ino : Inode}

theorem Disk.readBlock_congr {left right : Disk} {id : Nat}
    (same : left.blocks id = right.blocks id) (buf : Memory) (offset : Nat) :
    left.readBlock id buf offset = right.readBlock id buf offset := by
  funext address
  rw [Disk.readBlock_apply, Disk.readBlock_apply, same]

/-- A reader may find another record changed in the block of its own inode; it goes on
from its own. -/
theorem steady_getInode (file : FileAt d inum ino) (different : target ≠ some inum) :
    (Stepwise.getInode inum).Steady Disk.act (Keeps d target) d := by
  have inRange : ¬inodeNum ≤ inum := Nat.not_le.mpr (getInode_lt file.found)
  unfold Stepwise.getInode
  rw [if_neg inRange]
  refine ⟨fun state kept => ⟨rfl, ?_⟩, trivial⟩
  have same : getInode state inum = getInode d inum :=
    (kept inum ino different file).1.trans file.found.symm
  unfold getInode at same
  rw [if_neg inRange, if_neg inRange] at same
  exact congrArg Script.ret same

theorem steady_readBlock (file : FileAt d inum ino) (different : target ≠ some inum) {id : Nat}
    (member : id ∈ references d ino) (buf : Memory) (offset : Nat) :
    (Stepwise.readBlock id buf offset).Steady Disk.act (Keeps d target) d := by
  refine ⟨fun state kept => ⟨rfl, ?_⟩, trivial⟩
  have same := (kept inum ino different file).2 id member
  exact congrArg Script.ret (Disk.readBlock_congr same buf offset)

theorem steady_readFile (consistent : Consistent d) (file : FileAt d inum ino)
    (different : target ≠ some inum) (uninit : Uninit) :
    (Stepwise.readFile uninit inum).Steady Disk.act (Keeps d target) d := by
  have own := Keeps.start d target
  have readable := (consistent.owned inum ino file).readable
  have few := readable.fileBlocks_le
  have original : ceil ino.size.toNat blockSize = fileBlocks ino := rfl
  unfold Stepwise.readFile
  apply Script.Steady.bind own (steady_getInode file different)
  intro result ran
  rw [Stepwise.alone_getInode, file.found] at ran
  cases ran
  simp only [original, ndirect_eq]
  apply Script.Steady.bind own
  · apply Script.steady_foldlM own
    intro i member bufOut
    rw [List.mem_range] at member
    rw [ino.block_eq (by omega), ← dataRef_direct d ino (by omega)]
    exact steady_readBlock file different (dataRef_mem (by omega)) _ _
  · intro bufOut _ran
    by_cases small : fileBlocks ino ≤ 32
    · rw [if_pos small]
      trivial
    · rw [if_neg small]
      have index := indexBlock_mem (d := d) (Nat.lt_of_not_le small)
      apply Script.Steady.bind own (steady_readBlock file different index _ _)
      intro indirectBlocks ranRead
      rw [Stepwise.alone_readBlock] at ranRead
      cases ranRead
      apply Script.Steady.bind own
      · apply Script.steady_foldlM own
        intro i member bufOut
        rw [List.mem_range] at member
        rw [indirectEntry_readBlock uninit.indirectBlocks (readable.onDisk _ index) (by omega)]
        exact steady_readBlock file different (dataRef_mem (by omega)) _ _
      · exact fun _bufOut _ran => trivial

def ReadsOther (d : Disk) (target : Option Nat) : Request → Prop
  | .get id _ => target ≠ some (maskId id) ∧ ∃ ino, FileAt d (maskId id) ino
  | .getattr id => target ≠ some (maskId id) ∧ ∃ ino, FileAt d (maskId id) ino
  | _ => False

theorem steady_serve (consistent : Consistent d) {request : Request}
    (reads : ReadsOther d target request) :
    (Stepwise.serve request).Steady Disk.act (Keeps d target) d := by
  have own := Keeps.start d target
  cases request with
  | create type uninit => exact reads.elim
  | put id buf uninit => exact reads.elim
  | get id uninit =>
      obtain ⟨different, ino, file⟩ := reads
      apply Script.Steady.bind own
      · unfold Stepwise.get
        apply Script.Steady.bind own (steady_readFile consistent file different uninit)
        intro out _ran
        cases out with
        | none => trivial
        | some out =>
            dsimp only
            split
            · trivial
            · split <;> trivial
      · exact fun _buf _ran => trivial
  | getattr id =>
      obtain ⟨different, ino, file⟩ := reads
      apply Script.Steady.bind own
      · unfold Stepwise.getattr Stepwise.inodeAttr
        apply Script.Steady.bind own (steady_getInode file different)
        intro result _ran
        cases result <;> trivial
      · exact fun _attr _ran => trivial
  | remove id uninit => exact reads.elim

end Reader

/-! ### Side by side -/

def handlers {Thread : Type} (d : Disk) (requests : Thread → Request) :
    Pool Thread Disk DiskOp Memory Reply :=
  { state := d, scripts := fun thread => Stepwise.serve (requests thread) }

theorem answer_of_serve {d after : Disk} {request : Request}
    (served : serve d request = some after) :
    ∃ reply, answer d request = some (after, reply) := by
  rw [← answer_serve] at served
  obtain ⟨⟨left, reply⟩, answered, rfl⟩ := Option.map_eq_some_iff.mp served
  exact ⟨reply, answered⟩

theorem ReadsOther.answers {d : Disk} {target : Option Nat} {request : Request}
    (consistent : Consistent d) (reads : ReadsOther d target request) :
    ∃ reply, answer d request = some (d, reply) := by
  cases request with
  | create type uninit => exact reads.elim
  | put id buf uninit => exact reads.elim
  | get id uninit =>
      obtain ⟨-, ino, file⟩ := reads
      exact ⟨_, congrArg (Option.map fun buf => (d, Reply.data buf))
        (get_of_file consistent file uninit)⟩
  | getattr id => exact ⟨_, rfl⟩
  | remove id uninit => exact reads.elim

/-- However the accesses of the handlers fall, the one that writes does what it does
alone, each reader answers what it answers alone, and at every moment the other files
have the inode and the bytes they had. -/
theorem reads_undisturbed {Thread : Type} [DecidableEq Thread] {d : Disk}
    (consistent : Consistent d) {requests : Thread → Request} {writer : Thread}
    (changes : (requests writer).writes = true) (ok : StepOk d (requests writer))
    (readers : ∀ thread, thread ≠ writer →
      ReadsOther d (requests writer).target (requests thread))
    {schedule : List Thread} {final : Pool Thread Disk DiskOp Memory Reply}
    (ran : run (Pool.step Disk.act) (handlers d requests) schedule = some final) :
    (∀ thread, (final.scripts thread).pending = none →
      ∃ after reply, answer d (requests thread) = some (after, reply) ∧
        final.scripts thread = .ret reply ∧ (thread = writer → final.state = after)) ∧
    ∀ inum ino, (requests writer).target ≠ some inum → FileAt d inum ino →
      getInode final.state inum = some ino ∧ contents final.state ino = contents d ino := by
  have held := Pool.one_writer (always_serve consistent changes ok)
    (fun thread different => steady_serve consistent (readers thread different)) ran
  refine ⟨fun thread ended => ?_, fun inum ino different file => ?_⟩
  · by_cases same : thread = writer
    · subst same
      obtain ⟨after, served⟩ := serve_total consistent ok (by
        intro id uninit isGet
        rw [isGet] at changes
        cases changes)
      obtain ⟨reply, answered⟩ := answer_of_serve served
      obtain ⟨returned, state⟩ := Script.alone_ended ended held.written
        ((Stepwise.alone_serve d _).trans answered)
      exact ⟨after, reply, answered, returned, fun _same => state⟩
    · obtain ⟨reply, answered⟩ := (readers thread same).answers consistent
      obtain ⟨returned, -⟩ := Script.alone_ended ended (held.read thread same)
        ((Stepwise.alone_serve d _).trans answered)
      exact ⟨d, reply, answered, returned, fun isWriter => absurd isWriter same⟩
  · obtain ⟨found, blocks⟩ := held.writes.here inum ino different file
    exact ⟨found, contents_congr blocks⟩

def newcomer : Fin 3 → Request
  | 0 => .create .file .zero
  | 1 => .get 3 .zero
  | 2 => .getattr 3

/-- One reader has its inode before the new record is written, the other after. -/
theorem reads_undisturbed_create :
    ∃ d final, run serve (construct .zero)
        [.create .file .zero, .create .file .zero, .put 3 [9] .zero] = some d ∧
      run (Pool.step Disk.act) (handlers d newcomer) [0, 0, 0, 0, 0, 1, 0, 1, 2] = some final ∧
      final.scripts 0 = .ret (.created 4) ∧ final.scripts 1 = .ret (.data [9]) ∧
      final.scripts 2 = .ret (.attr { type := 2, atime := 0, mtime := 0, ctime := 0, size := 1 }) := by
  have notLast : maskId 3 = inodeNum - 1 → marked twoFiles firstData = false := by
    intro isLast
    cases isLast
  have file : FileAt twoFiles (maskId 3) createdFile := ⟨by decide +kernel, notLast⟩
  have consistent : Consistent twoFiles :=
    run_consistent (@guarded_twoFiles [] trivial) run_twoFiles
  have puts : ∃ d ino, put twoFiles .zero 3 [9] = some d ∧
      Stored twoFiles 3 createdFile [9] d ino :=
    put_spec .zero consistent file (by decide) (by decide)
      (WriteOk.first (fun b below => twoFiles_clear below) rfl rfl (by decide) (by decide)
        (by decide))
  obtain ⟨d, ino, stored, isStored⟩ := puts
  have ends : ((put twoFiles .zero 3 [9]).any fun d =>
      (run (Pool.step Disk.act) (handlers d newcomer) [0, 0, 0, 0, 0, 1, 0, 1, 2]).any fun final =>
        decide ((∀ thread, (final.scripts thread).pending.isNone) ∧
          (create d .zero .file).1 = 4 ∧ get d .zero 3 = some [9] ∧
          getattr d 3 = { type := 2, atime := 0, mtime := 0, ctime := 0, size := 1 } ∧
          getInode d 5 = none)) = true := by
    decide +kernel
  rw [stored, Option.any_some] at ends
  obtain ⟨final, ran, shown⟩ := (Option.any_eq_true _ _).mp ends
  obtain ⟨idle, created, data, attr, free⟩ := of_decide_eq_true shown
  have fileAfter : FileAt d 3 ino := isStored.file
  have ok : StepOk d (newcomer 0) := fun _unused taken =>
    absurd free (taken 5 (by decide) (by decide))
  have readers : ∀ thread, thread ≠ 0 →
      ReadsOther d (newcomer 0).target (newcomer thread) := by
    intro thread different
    obtain rfl | rfl : thread = 1 ∨ thread = 2 := by omega
    · exact ⟨by decide, ino, fileAfter⟩
    · exact ⟨by decide, ino, fileAfter⟩
  have answers := (reads_undisturbed isStored.consistent rfl ok readers ran).1
  refine ⟨d, final, stored, ran, ?_, ?_, ?_⟩
  · obtain ⟨after, reply, answered, returned, -⟩ :=
      answers 0 (Option.isNone_iff_eq_none.mp (idle 0))
    have same : Reply.created (create d .zero .file).1 = reply :=
      congrArg Prod.snd (Option.some.inj answered)
    rw [returned, ← same, created]
  · obtain ⟨after, reply, answered, returned, -⟩ :=
      answers 1 (Option.isNone_iff_eq_none.mp (idle 1))
    change (get d .zero 3).map _ = _ at answered
    rw [data] at answered
    cases answered
    exact returned
  · obtain ⟨after, reply, answered, returned, -⟩ :=
      answers 2 (Option.isNone_iff_eq_none.mp (idle 2))
    have same : Reply.attr (getattr d 3) = reply :=
      congrArg Prod.snd (Option.some.inj answered)
    rw [returned, ← same, attr]

end CseLab.FileSystem
