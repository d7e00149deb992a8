import CseLab.FileSystem.Store

/-! What memory that nobody has written may show to a client. Along trusted
steps the table of files follows the calls alone, by a function that no such
memory enters; the times of an inode are what `alloc_inode` found on its stack. -/

namespace CseLab.FileSystem

open ByteMemory Transition

inductive Call where
  | create (type : FileType)
  | put (id : Nat) (buf : List UInt8)
  | get (id : Nat)
  | getattr (id : Nat)
  | remove (id : Nat)
deriving DecidableEq

def Request.call : Request → Call
  | .create type _ => .create type
  | .put id buf _ => .put id buf
  | .get id _ => .get id
  | .getattr id => .getattr id
  | .remove id _ => .remove id

/-! ### The table follows the calls -/

/-- The files, and whether the first data block is taken. -/
structure View where
  files : Store
  started : Bool

def view (d : Disk) : View := { files := files d, started := marked d firstData }

/-- A number that `create` may hand out; the last one only while its record is not data. -/
def View.free (v : View) (inum : Nat) : Bool :=
  (v.files inum).isNone && !(decide (inum = inodeNum - 1) && v.started)

def View.serve (v : View) : Call → View
  | .create type =>
      match (List.range' 1 (inodeNum - 1)).find? v.free with
      | none => v
      | some inum =>
          { v with files := Function.update v.files inum (some ⟨type.code.toUInt16, []⟩) }
  | .put id buf =>
      if maxfile < toUint32 (ceilInt (Int.bmod buf.length (2 ^ 32)) blockSize) then v
      else
        match v.files (maskId id) with
        | none => v
        | some file =>
            { files := Function.update v.files (maskId id)
                (some { file with bytes := buf.take (buf.length % 2 ^ 32) })
              started := v.started ||
                decide ((file.bytes.length + 511) / 512 < (buf.length % 2 ^ 32 + 511) / 512) }
  | .get _ => v
  | .getattr _ => v
  | .remove id => { v with files := Function.update v.files (maskId id) none }

theorem files_isNone {d : Disk} {inum : Nat} (notLast : inum ≠ inodeNum - 1) :
    (files d inum).isNone = (getInode d inum).isNone := by
  unfold files
  cases getInode d inum with
  | none => rfl
  | some ino =>
      dsimp only
      rw [if_neg (fun both : _ ∧ _ => notLast both.1)]
      rfl

theorem create_search {d : Disk} (ok : CreateOk d) :
    (List.range' 1 (sb.ninodes - 1)).find? (fun inum => (getInode d inum).isNone) =
      (List.range' 1 (inodeNum - 1)).find? (view d).free := by
  have early : ∀ inum ∈ List.range' 1 1022,
      (getInode d inum).isNone = (view d).free inum := by
    intro inum member
    rw [List.mem_range'_1] at member
    have notLast : inum ≠ inodeNum - 1 := by
      change inum ≠ 1023
      omega
    change _ = ((files d inum).isNone && _)
    rw [files_isNone notLast, decide_eq_false notLast, Bool.false_and, Bool.not_false, Bool.and_true]
  change (List.range' 1 (1022 + 1)).find? _ = (List.range' 1 (1022 + 1)).find? _
  rw [List.range'_1_concat, List.find?_append, List.find?_append, List.find?_congr early]
  cases search : (List.range' 1 1022).find? (view d).free with
  | some inum => rfl
  | none =>
      have taken : ∀ inum, 0 < inum → inum < inodeNum - 1 → getInode d inum ≠ none := by
        intro inum positive below missing
        change inum < 1023 at below
        have member : inum ∈ List.range' 1 1022 := List.mem_range'_1.mpr (by omega)
        have busy := List.find?_eq_none.mp search inum member
        rw [← early inum member, missing] at busy
        exact busy rfl
      have late : (getInode d 1023).isNone = (view d).free 1023 := by
        change _ = ((files d 1023).isNone && !(true && marked d firstData))
        rw [Bool.true_and]
        cases found : getInode d 1023 with
        | none =>
            rw [files_missing found, ok found taken]
            rfl
        | some ino =>
            cases first : marked d firstData with
            | true => exact (Bool.and_false _).symm
            | false =>
                rw [files_of_file ⟨found, fun _ => first⟩]
                rfl
      simp only [List.find?_singleton, Nat.reduceAdd, late]

private theorem create_view {d : Disk} {type : FileType} {uninit : Uninit}
    (consistent : Consistent d) (ok : CreateOk d) :
    view (create d uninit type).2 = (view d).serve (.create type) := by
  have search := create_search ok
  unfold View.serve
  dsimp only
  rw [← search]
  cases found : (List.range' 1 (sb.ninodes - 1)).find? (fun inum => (getInode d inum).isNone) with
  | none =>
      unfold create allocInode
      rw [found]
  | some inum =>
      have ran : create d uninit type =
          (inum, putInode d inum { uninit.ino with type := type.code.toUInt16, size := 0 }) := by
        unfold create allocInode
        rw [found]
      have positive : 0 < inum := by
        have member := List.mem_of_find?_eq_some found
        rw [List.mem_range'_1] at member
        omega
      rcases create_spec consistent uninit type ok with none | ⟨other, after, ranOther, created⟩
      · rw [ran] at none
        have zero := (Prod.mk.inj none).1
        omega
      · obtain ⟨same, sameDisk⟩ := Prod.mk.inj (ran.symm.trans ranOther)
        subst same
        subst sameDisk
        obtain ⟨ino, file, sameType, empty⟩ := created.file
        have here := files_of_file file
        have noBytes : contents (putInode d inum
            { uninit.ino with type := type.code.toUInt16, size := 0 }) ino = [] := by
          unfold contents
          rw [empty]
          rfl
        rw [sameType, noBytes] at here
        have first : marked (putInode d inum
            { uninit.ino with type := type.code.toUInt16, size := 0 }) firstData =
            marked d firstData :=
          marked_congr (putInode_other d _ (by rw [bblock_eq, firstData_eq]; omega))
        rw [ran]
        unfold view
        rw [files_update created.untouched here, first]

def SameTimes (left right : Inode) : Prop :=
  left.atime = right.atime ∧ left.mtime = right.mtime ∧ left.ctime = right.ctime

instance (left right : Inode) : Decidable (SameTimes left right) :=
  inferInstanceAs (Decidable (_ ∧ _))

private theorem put_wrote {d after : Disk} {id : Nat} {ino : Inode} {buf : List UInt8}
    {uninit : Uninit} (consistent : Consistent d) (ok : StepOk d (.put id buf uninit))
    (fits : toUint32 (ceilInt (Int.bmod buf.length (2 ^ 32)) blockSize) ≤ maxfile)
    (found : getInode d (maskId id) = some ino) (served : put d uninit id buf = some after) :
    FileAt d (maskId id) ino ∧
      ∃ next, Stored d (maskId id) ino (buf.take (buf.length % 2 ^ 32)) after next ∧
        SameTimes next ino ∧
        marked after firstData =
          (marked d firstData || decide (fileBlocks ino < (buf.length % 2 ^ 32 + 511) / 512)) := by
  obtain ⟨nonneg, writeOk⟩ := ok ino found fits
  have file : FileAt d (maskId id) ino := ⟨found, writeOk.last⟩
  have small := size_small nonneg fits
  obtain ⟨other, next, ran, stored⟩ := put_spec uninit consistent file nonneg small writeOk
  cases ran.symm.trans served
  obtain ⟨again, blocks, wrote, rewritten, -, -, first⟩ := writeFile_rewrites uninit
    (cStr buf uninit) found (consistent.owned _ ino file) writeOk.last writeOk.toFits small
  have same : again = after := by
    unfold put at served
    rw [bmod_length nonneg] at served
    exact Option.some.inj (wrote.symm.trans served)
  subst same
  refine ⟨file, next, stored, ?_, first⟩
  cases rewritten.found.symm.trans stored.file.found
  exact ⟨rfl, rfl, rfl⟩

private theorem put_view {d after : Disk} {id : Nat} {buf : List UInt8} {uninit : Uninit}
    (consistent : Consistent d) (ok : StepOk d (.put id buf uninit))
    (served : put d uninit id buf = some after) :
    view after = (view d).serve (.put id buf) := by
  unfold View.serve
  dsimp only
  by_cases large : maxfile < toUint32 (ceilInt (Int.bmod buf.length (2 ^ 32)) blockSize)
  · rw [if_pos large]
    cases (put_refused uninit large).symm.trans served
    rfl
  · rw [if_neg large]
    change _ = match files d (maskId id) with
      | none => view d
      | some file => _
    cases found : getInode d (maskId id) with
    | none =>
        rw [files_missing found]
        cases (put_missing uninit buf found).symm.trans served
        rfl
    | some ino =>
        obtain ⟨file, next, stored, -, first⟩ :=
          put_wrote consistent ok (Nat.not_lt.mp large) found served
        have here := files_of_file stored.file
        rw [stored.type_eq, stored.contents_eq] at here
        rw [files_of_file file]
        dsimp only
        rw [contents_length, ← fileBlocks_eq]
        unfold view
        rw [files_update stored.untouched here, first]

private theorem remove_view {d after : Disk} {id : Nat} {uninit : Uninit}
    (consistent : Consistent d) (ok : StepOk d (.remove id uninit))
    (served : remove d uninit id = some after) :
    view after = (view d).serve (.remove id) := by
  unfold View.serve
  cases found : getInode d (maskId id) with
  | none =>
      cases (remove_missing uninit found).symm.trans served
      have missing : (view d).files (maskId id) = none := files_missing found
      dsimp only
      rw [← missing, Function.update_eq_self]
  | some ino =>
      have removeOk := ok ino found
      have file : FileAt d (maskId id) ino := ⟨found, removeOk.last⟩
      obtain ⟨other, ran, removed⟩ := remove_spec uninit consistent file removeOk
      cases ran.symm.trans served
      have first : marked after firstData = marked d firstData := by
        have wrote := removeFile_eq uninit found (consistent.owned _ ino file)
        cases wrote.symm.trans served
        rw [marked_congr (putInode_other _ _ (by rw [bblock_eq, firstData_eq]; omega)),
          marked_firstData_freeAll]
      unfold view
      rw [files_update removed.untouched (files_missing removed.gone), first]

/-- A trusted step changes the table as its call says, whatever memory it finds. -/
theorem serve_view {d after : Disk} {request : Request} (consistent : Consistent d)
    (ok : StepOk d request) (served : serve d request = some after) :
    view after = (view d).serve request.call := by
  cases request with
  | create type uninit =>
      cases served
      exact create_view consistent ok
  | put id buf uninit => exact put_view consistent ok served
  | get id uninit =>
      obtain ⟨bytes, -, same⟩ := Option.map_eq_some_iff.mp served
      cases same
      rfl
  | getattr id =>
      cases served
      rfl
  | remove id uninit => exact remove_view consistent ok served

/-! ### The times -/

/-- A server, and for each file what `alloc_inode` found in its local inode. -/
structure Traced where
  disk : Disk
  made : Nat → Inode

def Traced.construct (uninit : Uninit) : Traced :=
  { disk := FileSystem.construct uninit, made := fun _ => uninit.ino }

def Traced.serve (t : Traced) (request : Request) : Option Traced :=
  (FileSystem.serve t.disk request).map fun after =>
    { disk := after
      made :=
        match request with
        | .create type uninit =>
            let inum := (create t.disk uninit type).1
            if inum = 0 then t.made else Function.update t.made inum uninit.ino
        | _ => t.made }

/-- A file has the times that its inode was made with. -/
structure Traced.Sound (t : Traced) : Prop where
  consistent : Consistent t.disk
  times : ∀ inum ino, FileAt t.disk inum ino → SameTimes ino (t.made inum)

private theorem create_times {d : Disk} {type : FileType} {uninit : Uninit} {made : Nat → Inode}
    (consistent : Consistent d) (ok : CreateOk d)
    (times : ∀ inum ino, FileAt d inum ino → SameTimes ino (made inum)) {inum : Nat} {ino : Inode}
    (file : FileAt (create d uninit type).2 inum ino) :
    SameTimes ino ((if (create d uninit type).1 = 0 then made
      else Function.update made (create d uninit type).1 uninit.ino) inum) := by
  rcases create_spec consistent uninit type ok with none | ⟨other, after, ran, created⟩
  · rw [none] at file ⊢
    exact times inum ino file
  · rw [ran] at file ⊢
    rw [if_neg (Nat.ne_of_gt created.positive)]
    by_cases here : inum = other
    · subst here
      rw [Function.update_self]
      rcases allocInode_spec d uninit type.code with none | ⟨again, -, inTable, -, -, allocated⟩
      · obtain ⟨zero, -⟩ := Prod.mk.inj (none.symm.trans ran)
        exact absurd zero.symm (Nat.ne_of_gt created.positive)
      · obtain ⟨same, sameDisk⟩ := Prod.mk.inj (allocated.symm.trans ran)
        subst same
        subst sameDisk
        have found := file.found
        rw [getInode_putInode_self _ _ inTable] at found
        obtain ⟨-, same⟩ := Option.ite_none_left_eq_some.mp found
        cases same
        exact ⟨rfl, rfl, rfl⟩
    · rw [Function.update_of_ne here]
      exact times inum ino ((created.untouched.files inum ino here).mp file)

private theorem put_times {d after : Disk} {id : Nat} {buf : List UInt8} {uninit : Uninit}
    {made : Nat → Inode} (consistent : Consistent d) (ok : StepOk d (.put id buf uninit))
    (times : ∀ inum ino, FileAt d inum ino → SameTimes ino (made inum))
    (served : put d uninit id buf = some after) {inum : Nat} {next : Inode}
    (file : FileAt after inum next) : SameTimes next (made inum) := by
  by_cases large : maxfile < toUint32 (ceilInt (Int.bmod buf.length (2 ^ 32)) blockSize)
  · cases (put_refused uninit large).symm.trans served
    exact times inum next file
  · cases found : getInode d (maskId id) with
    | none =>
        cases (put_missing uninit buf found).symm.trans served
        exact times inum next file
    | some ino =>
        obtain ⟨before, _, stored, ⟨atime, mtime, ctime⟩, -⟩ :=
          put_wrote consistent ok (Nat.not_lt.mp large) found served
        by_cases here : inum = maskId id
        · subst here
          cases stored.file.found.symm.trans file.found
          obtain ⟨madeAtime, madeMtime, madeCtime⟩ := times _ ino before
          exact ⟨atime.trans madeAtime, mtime.trans madeMtime, ctime.trans madeCtime⟩
        · exact times inum next ((stored.untouched.files inum next here).mp file)

private theorem remove_times {d after : Disk} {id : Nat} {uninit : Uninit} {made : Nat → Inode}
    (consistent : Consistent d) (ok : StepOk d (.remove id uninit))
    (times : ∀ inum ino, FileAt d inum ino → SameTimes ino (made inum))
    (served : remove d uninit id = some after) {inum : Nat} {next : Inode}
    (file : FileAt after inum next) : SameTimes next (made inum) := by
  cases found : getInode d (maskId id) with
  | none =>
      cases (remove_missing uninit found).symm.trans served
      exact times inum next file
  | some ino =>
      have removeOk := ok ino found
      obtain ⟨other, ran, removed⟩ := remove_spec uninit consistent ⟨found, removeOk.last⟩ removeOk
      cases ran.symm.trans served
      by_cases here : inum = maskId id
      · subst here
        cases removed.gone.symm.trans file.found
      · exact times inum next ((removed.untouched.files inum next here).mp file)

theorem Traced.Sound.serve {t next : Traced} {request : Request} (sound : t.Sound)
    (ok : StepOk t.disk request) (served : t.serve request = some next) :
    next.Sound ∧ view next.disk = (view t.disk).serve request.call := by
  obtain ⟨after, ran, same⟩ := Option.map_eq_some_iff.mp served
  cases same
  refine ⟨⟨(serve_refines sound.consistent ok ran).1, ?_⟩, serve_view sound.consistent ok ran⟩
  intro inum ino file
  cases request with
  | create type uninit =>
      cases ran
      exact create_times sound.consistent ok sound.times file
  | put id buf uninit => exact put_times sound.consistent ok sound.times ran file
  | get id uninit =>
      obtain ⟨bytes, -, same⟩ := Option.map_eq_some_iff.mp ran
      cases same
      exact sound.times inum ino file
  | getattr id =>
      cases ran
      exact sound.times inum ino file
  | remove id uninit => exact remove_times sound.consistent ok sound.times ran file

/-! ### Two runs -/

private theorem fresh_createOk : CreateOk Disk.fresh := fun _free _taken => marked_fresh _

theorem construct_view (uninit : Uninit) :
    view (construct uninit) = (view Disk.fresh).serve (.create .dir) :=
  create_view fresh_consistent fresh_createOk

theorem Traced.Sound.construct (uninit : Uninit) : (Traced.construct uninit).Sound := by
  refine ⟨construct_consistent uninit, ?_⟩
  intro inum ino file
  have missing : ∀ other otherIno, FileAt Disk.fresh other otherIno →
      SameTimes otherIno (uninit.ino) := by
    intro other otherIno was
    have found := was.found
    rw [getInode_fresh] at found
    cases found
  have times : SameTimes ino ((if (create Disk.fresh uninit .dir).1 = 0 then fun _ => uninit.ino
      else Function.update (fun _ => uninit.ino) (create Disk.fresh uninit .dir).1 uninit.ino) inum) :=
    create_times fresh_consistent fresh_createOk missing file
  split at times
  · exact times
  · rw [Function.update_apply] at times
    split at times
    · exact times
    · exact times

/-- The whole run: the table is what the calls make of it. -/
theorem Traced.run_view {uninit : Uninit} {requests : List Request} {t : Traced}
    (guarded : Guarded Traced.serve (fun t => StepOk t.disk) (.construct uninit) requests)
    (ran : run Traced.serve (.construct uninit) requests = some t) :
    t.Sound ∧ view t.disk = (requests.map Request.call).foldl View.serve
      ((view Disk.fresh).serve (.create .dir)) := by
  rw [← construct_view uninit]
  have start := Traced.Sound.construct uninit
  change t.Sound ∧ view t.disk = (requests.map Request.call).foldl View.serve
    (view (Traced.construct uninit).disk)
  generalize Traced.construct uninit = s at guarded ran start
  induction requests generalizing s with
  | nil =>
      cases ran
      exact ⟨start, rfl⟩
  | cons request rest ih =>
      obtain ⟨next, served, tail⟩ := run_cons_eq_some ran
      obtain ⟨sound, viewed⟩ := start.serve guarded.1 served
      have rest := ih next (guarded.2 next served) tail sound
      rw [viewed] at rest
      exact rest

private theorem same_files {d e : Disk} {inum : Nat} (same : view d = view e)
    (last : inum = inodeNum - 1 → marked d firstData = false) :
    (getInode d inum = none ∧ getInode e inum = none) ∨
      ∃ left right, FileAt d inum left ∧ FileAt e inum right ∧ left.type = right.type ∧
        contents d left = contents e right := by
  have files_eq : files d inum = files e inum := congrArg (fun v => v.files inum) same
  have first : marked d firstData = marked e firstData := congrArg View.started same
  have lastOther : inum = inodeNum - 1 → marked e firstData = false := first ▸ last
  cases found : getInode d inum with
  | none =>
      left
      refine ⟨rfl, ?_⟩
      cases foundOther : getInode e inum with
      | none => rfl
      | some ino =>
          rw [files_of_file ⟨foundOther, lastOther⟩] at files_eq
          obtain ⟨left, file, -⟩ := files_eq_some.mp files_eq
          cases found.symm.trans file.found
  | some left =>
      right
      rw [files_of_file ⟨found, last⟩] at files_eq
      obtain ⟨right, file, same⟩ := files_eq_some.mp files_eq.symm
      injection same with sameType sameBytes
      exact ⟨left, right, ⟨found, last⟩, file, sameType, sameBytes⟩

/-- After the same calls `get` returns the same bytes whatever memory the two
servers have found, and `getattr` the same attributes if and only if the inode,
if there is one, was made with the same times. -/
theorem uninitialised_unobserved {first second : Uninit} {requests others : List Request}
    (calls : requests.map Request.call = others.map Request.call)
    (guarded : Guarded Traced.serve (fun t => StepOk t.disk) (.construct first) requests)
    (guardedOther : Guarded Traced.serve (fun t => StepOk t.disk) (.construct second) others)
    {s t : Traced} (ran : run Traced.serve (.construct first) requests = some s)
    (ranOther : run Traced.serve (.construct second) others = some t) {id : Nat}
    (last : maskId id = inodeNum - 1 → marked s.disk firstData = false) :
    (∀ memory other, get s.disk memory id = get t.disk other id) ∧
    (getattr s.disk id = getattr t.disk id ↔
      ((getInode s.disk (maskId id)).isSome →
        SameTimes (s.made (maskId id)) (t.made (maskId id)))) := by
  obtain ⟨sound, viewed⟩ := Traced.run_view guarded ran
  obtain ⟨soundOther, viewedOther⟩ := Traced.run_view guardedOther ranOther
  have same : view s.disk = view t.disk := by rw [viewed, viewedOther, calls]
  rcases same_files same last with ⟨missing, missingOther⟩ |
    ⟨left, right, file, fileOther, sameType, sameBytes⟩
  · constructor
    · intro memory other
      rw [get_missing memory missing, get_missing other missingOther]
    · unfold getattr inodeAttr
      rw [missing, missingOther]
      exact iff_of_true rfl nofun
  · have readable := (sound.consistent.owned _ left file).readable
    have readableOther := (soundOther.consistent.owned _ right fileOther).readable
    constructor
    · intro memory other
      rw [get_spec memory file.found readable, get_spec other fileOther.found readableOther, sameBytes]
    · have sameSize : left.size = right.size := by
        apply UInt32.toNat_inj.mp
        rw [← contents_length s.disk left, ← contents_length t.disk right, sameBytes]
      obtain ⟨atime, mtime, ctime⟩ := sound.times _ left file
      obtain ⟨atimeOther, mtimeOther, ctimeOther⟩ := soundOther.times _ right fileOther
      unfold getattr inodeAttr
      rw [file.found, fileOther.found]
      simp only [sameType, sameSize, Attr.mk.injEq, true_and, and_true, Option.isSome_some,
        forall_const, SameTimes, atime, mtime, ctime, atimeOther, mtimeOther, ctimeOther]

private def dirty : Uninit := { Uninit.zero with ino := { Uninit.zero.ino with atime := 7 } }

private def stale : Uninit :=
  { dirty with
    indirectBlocks := fun _ => 1
    indirectBlocksAgain := fun _ => 2
    bufOut := fun _ => 3
    pastEnd := fun _ => 4 }

private def shortFile (memory : Uninit) : List Request :=
  [.create .file memory, .put 2 [7] memory]

private theorem shortFile_guarded {memory : Uninit}
    (unused : getInode (create (construct memory) memory .file).2 (inodeNum - 1) = none)
    (empty : (getInode (create (construct memory) memory .file).2 2).map Inode.size = some 0) :
    Guarded Traced.serve (fun t => StepOk t.disk) (.construct memory) (shortFile memory) := by
  have low := allocInode_low Disk.fresh memory FileType.dir.code (show 2 < 11 by decide)
  refine ⟨createOk_low low, ?_⟩
  rintro next ⟨⟩
  refine ⟨StepOk.put_first (fun b => clear_low ((allocInode_low _ memory _ (by decide)).trans low))
    unused ?_ (by decide) (by decide) (by decide) memory, fun _next _served => trivial⟩
  intro ino found
  change getInode (create (construct memory) memory .file).2 2 = some ino at found
  rw [found] at empty
  exact Option.some.inj empty

private theorem shortFile_zero : ∃ s,
    run Traced.serve (.construct .zero) (shortFile .zero) = some s ∧
      (getInode s.disk (maskId 2)).isSome = true ∧ (s.made (maskId 2)).atime = 0 := by
  have ends : (run Traced.serve (.construct .zero) (shortFile .zero)).any (fun s =>
      (getInode s.disk (maskId 2)).isSome = true ∧ (s.made (maskId 2)).atime = 0) = true := by
    decide +kernel
  obtain ⟨s, ran, holds⟩ := (Option.any_eq_true _ _).mp ends
  exact ⟨s, ran, of_decide_eq_true holds⟩

private theorem shortFile_stale : ∃ t,
    run Traced.serve (.construct stale) (shortFile stale) = some t ∧
      (t.made (maskId 2)).atime = 7 := by
  have ends : (run Traced.serve (.construct stale) (shortFile stale)).any (fun t =>
      (t.made (maskId 2)).atime = 7) = true := by decide +kernel
  obtain ⟨t, ran, holds⟩ := (Option.any_eq_true _ _).mp ends
  exact ⟨t, ran, of_decide_eq_true holds⟩

/-- What the buffers held shows in no byte of the file; what was on the stack shows in its
times. -/
theorem uninitialised_unobserved_short : ∃ s t,
    run Traced.serve (.construct .zero) (shortFile .zero) = some s ∧
    run Traced.serve (.construct stale) (shortFile stale) = some t ∧
    (∀ memory other, get s.disk memory 2 = get t.disk other 2) ∧
    getattr s.disk 2 ≠ getattr t.disk 2 := by
  obtain ⟨s, ran, live, made⟩ := shortFile_zero
  obtain ⟨t, ranOther, madeOther⟩ := shortFile_stale
  have calls : (shortFile .zero).map Request.call = (shortFile stale).map Request.call := rfl
  have notLast : maskId 2 ≠ inodeNum - 1 := by decide
  obtain ⟨bytes, attributes⟩ := uninitialised_unobserved calls
    (shortFile_guarded (by decide +kernel) (by decide +kernel))
    (shortFile_guarded (by decide +kernel) (by decide +kernel)) ran ranOther
    (fun isLast => absurd isLast notLast)
  refine ⟨s, t, ran, ranOther, bytes, fun same => ?_⟩
  have times := (attributes.mp same live).1
  rw [made, madeOther] at times
  cases times

/-- The root directory's access time is what the constructor found on its stack. -/
theorem times_observed :
    run serve (construct .zero) [] = some (construct .zero) ∧
    run serve (construct dirty) [] = some (construct dirty) ∧
    (getattr (construct .zero) 1).atime = 0 ∧ (getattr (construct dirty) 1).atime = 7 :=
  ⟨rfl, rfl, by decide, by decide⟩

end CseLab.FileSystem
