import CseLab.FileSystem.Store
import CseLab.FileSystem.Overwrite

/-! What a client may rely on over whole runs: a handler changes no file but
its own, and what `put` stores `get` returns. Both hold along the runs of
trusted steps, and both are lost when an indirect file is written over. -/

namespace CseLab.FileSystem

open ByteMemory Transition

def Request.writes : Request → Bool
  | .create _ _ => true
  | .put _ _ _ => true
  | .remove _ _ => true
  | .get _ _ => false
  | .getattr _ => false

theorem get_of_file {d : Disk} {id : Nat} {ino : Inode} (consistent : Consistent d)
    (file : FileAt d (maskId id) ino) (uninit : Uninit) :
    get d uninit id = some (contents d ino) :=
  get_spec uninit file.found (consistent.owned _ ino file).readable

/-! ### Isolation -/

/-- Along a run of trusted steps, a request that changes the disk returns and
leaves every file it does not name as it was. -/
theorem other_files_unchanged (uninit : Uninit) {requests : List Request} {request : Request}
    {d : Disk} (guarded : Guarded serve StepOk (construct uninit) (requests ++ [request]))
    (ran : run serve (construct uninit) requests = some d) (changes : request.writes = true)
    {id : Nat} {ino : Inode} (live : getInode d (maskId id) = some ino)
    (last : maskId id = inodeNum - 1 → marked d firstData = false)
    (different : request.target ≠ some (maskId id)) :
    ∃ after, serve d request = some after ∧
      (∀ memory, get after memory id = get d memory id) ∧
      (getattr after id).type = (getattr d id).type ∧
      (getattr after id).size = (getattr d id).size := by
  have consistent := run_consistent guarded.append_left ran
  have ok : StepOk d request := (guarded.append_right ran).1
  have file : FileAt d (maskId id) ino := ⟨live, last⟩
  obtain ⟨after, served⟩ := serve_total consistent ok (by
    rintro other memory rfl
    cases changes)
  obtain ⟨consistentAfter, step⟩ := serve_refines consistent ok served
  obtain ⟨next, fileAfter, same⟩ := files_eq_some.mp (step.frame (files_of_file file) different)
  injection same with sameType sameBytes
  have sameSize : next.size = ino.size := by
    apply UInt32.toNat_inj.mp
    rw [← contents_length after next, ← contents_length d ino, sameBytes]
  refine ⟨after, served, ?_, ?_, ?_⟩
  · intro memory
    rw [get_of_file consistentAfter fileAfter, get_of_file consistent file, sameBytes]
  · rw [(getattr_of_file fileAfter).2, (getattr_of_file file).2, sameType]
  · rw [(getattr_of_file fileAfter).1, (getattr_of_file file).1, sameSize]

/-! ### Round trip -/

/-- Along a run of trusted steps, a `put` that fits returns, `get` then gives
the buffer back and `getattr` its length. -/
theorem put_get (uninit : Uninit) {requests : List Request} {d : Disk}
    (guarded : Guarded serve StepOk (construct uninit) requests)
    (ran : run serve (construct uninit) requests = some d)
    {id : Nat} {ino : Inode} (live : getInode d (maskId id) = some ino)
    (last : maskId id = inodeNum - 1 → marked d firstData = false)
    {buf : List UInt8} (small : buf.length ≤ maxfile * blockSize)
    (fits : Fits d (maskId id) ino (ceil buf.length blockSize)) (memory : Uninit) :
    ∃ after, put d memory id buf = some after ∧
      (∀ later, get after later id = some buf) ∧
      (getattr after id).size.toNat = buf.length := by
  have consistent := run_consistent guarded ran
  have owned := consistent.owned _ ino ⟨live, last⟩
  change buf.length ≤ 81920 at small
  rw [ceil_eq] at fits
  have whole : buf.length % 2 ^ 32 = buf.length := Nat.mod_eq_of_lt (by omega)
  have size : Int.bmod buf.length (2 ^ 32) = (buf.length : Int) := by
    apply Int.bmod_eq_of_le <;> omega
  obtain ⟨after, next, wrote, rewritten, sized, bytes, -, -⟩ :=
    writeFile_spec memory (cStr buf memory) live owned last fits small
  refine ⟨after, ?_, ?_, ?_⟩
  · unfold put
    rw [size]
    exact wrote
  · intro later
    rw [get_spec later rewritten.found rewritten.toPlaced.readable, bytes,
      map_cStr buf memory (Nat.le_refl _), List.take_length]
  · unfold getattr inodeAttr
    rw [rewritten.found]
    exact sized

/-! ### Two files -/

def twoFiles : Disk := (create (create (construct .zero) .zero .file).2 .zero .file).2

theorem twoFiles_clear {b : Nat} (below : b < 2048) : marked twoFiles b = false :=
  clear_low ((allocInode_low _ .zero _ (by omega)).trans
    ((allocInode_low _ .zero _ (by omega)).trans (allocInode_low _ .zero _ (by omega)))) below

theorem run_twoFiles :
    run serve (construct .zero) [.create .file .zero, .create .file .zero] = some twoFiles := rfl

theorem guarded_twoFiles {rest : List Request}
    (later : Guarded serve StepOk twoFiles rest) :
    Guarded serve StepOk (construct .zero)
      ([.create .file .zero, .create .file .zero] ++ rest) := by
  refine ⟨createOk_low (allocInode_low _ .zero _ (by omega)), ?_⟩
  rintro first ⟨⟩
  refine ⟨createOk_low ?_, ?_⟩
  · exact (allocInode_low _ .zero _ (by omega)).trans (allocInode_low _ .zero _ (by omega))
  · rintro second ⟨⟩
    exact later

private theorem twoFiles_found {inum : Nat} (isFile : inum = 2 ∨ inum = 3) :
    ∃ ino, getInode twoFiles inum = some ino ∧ ino.type = 2 ∧ ino.size = 0 := by
  have shape : ∀ inum, inum = 2 ∨ inum = 3 →
      (getInode twoFiles inum).map (fun ino => (ino.type, ino.size)) = some (2, 0) := by
    rintro inum (rfl | rfl) <;> decide
  obtain ⟨ino, found, fields⟩ := Option.map_eq_some_iff.mp (shape inum isFile)
  injection fields with type size
  exact ⟨ino, found, type, size⟩

private theorem twoFiles_putOk {id : Nat} (isFile : id = 2 ∨ id = 3) {buf : List UInt8}
    (any : 0 < buf.length) (small : buf.length ≤ 81920) (memory : Uninit) :
    StepOk twoFiles (.put id buf memory) := by
  have same : maskId id = id := by
    rcases isFile with rfl | rfl <;> rfl
  refine StepOk.put_first (fun _b below => twoFiles_clear below) rfl ?_ ?_ any small memory
  · intro ino found
    rw [same] at found
    obtain ⟨known, knownFound, -, empty⟩ := twoFiles_found isFile
    cases knownFound.symm.trans found
    exact empty
  · rw [same]
    change id ≠ 1023
    omega

theorem other_files_unchanged_put_one : ∃ after,
    serve twoFiles (.put 2 [7] .zero) = some after ∧
      (∀ memory, get after memory 3 = get twoFiles memory 3) ∧
      (getattr after 3).type = (getattr twoFiles 3).type ∧
      (getattr after 3).size = (getattr twoFiles 3).size := by
  obtain ⟨ino, found, -, -⟩ := twoFiles_found (Or.inr rfl)
  refine other_files_unchanged .zero (guarded_twoFiles ⟨?_, fun _next _served => trivial⟩)
    run_twoFiles rfl found ?_ (by decide)
  · exact twoFiles_putOk (Or.inl rfl) (by decide) (by decide) .zero
  · intro isLast
    cases isLast

theorem put_get_one : ∃ after, put twoFiles .zero 2 [7] = some after ∧
    (∀ later, get after later 2 = some [7]) ∧ (getattr after 2).size.toNat = [(7 : UInt8)].length := by
  obtain ⟨ino, found, -, empty⟩ := twoFiles_found (Or.inl rfl)
  have guarded : Guarded serve StepOk (construct .zero)
      ([.create .file .zero, .create .file .zero] ++ []) := guarded_twoFiles trivial
  have foundMasked : getInode twoFiles (maskId 2) = some ino := found
  refine put_get .zero guarded run_twoFiles foundMasked ?_ (by decide) ?_ .zero
  · intro isLast
    cases isLast
  · exact (WriteOk.first (fun b below => twoFiles_clear below) rfl empty (by decide)
      (by decide) (by decide)).toFits

/-! ### Writing an indirect file over -/

def ramp : List UInt8 := (List.range 17920).map (fun k => UInt8.ofNat (k / 512))

theorem ramp_length : ramp.length = 17920 := by
  unfold ramp
  rw [List.length_map, List.length_range]

private theorem ramp_block {n : Nat} (below : n < 35) : ramp[512 * n]? = some (UInt8.ofNat n) := by
  unfold ramp
  rw [List.getElem?_map, List.getElem?_range (by omega), Option.map_some]
  congr 2
  omega

private theorem overwrite_ramp : ∃ d ino after next,
    run serve (construct .zero)
      [.create .file .zero, .create .file .zero, .put 2 ramp .zero] = some d ∧
    getInode d 2 = some ino ∧ fileBlocks ino = 35 ∧
    (∃ victim, getInode d 3 = some victim ∧ victim.type = 2) ∧
    put d .zero 2 ramp = some after ∧ next.size.toNat = 17920 ∧
    Overwritten d 2 ino after next := by
  obtain ⟨empty, found, -, size⟩ := twoFiles_found (Or.inl rfl)
  obtain ⟨victim, victimFound, victimType, -⟩ := twoFiles_found (Or.inr rfl)
  have notLast : ∀ inum, inum < 4 → inum = inodeNum - 1 → marked twoFiles firstData = false := by
    intro inum below isLast
    change inum = 1023 at isLast
    omega
  have file : FileAt twoFiles (maskId 2) empty := ⟨found, notLast 2 (by omega)⟩
  have victimFile : FileAt twoFiles 3 victim := ⟨victimFound, notLast 3 (by omega)⟩
  have consistent : Consistent twoFiles := by
    have guarded : Guarded serve StepOk (construct .zero)
        ([.create .file .zero, .create .file .zero] ++ []) := guarded_twoFiles trivial
    exact run_consistent guarded run_twoFiles
  have bmod : Int.bmod ramp.length (2 ^ 32) = ((17920 : Nat) : Int) := by
    rw [ramp_length]
    rfl
  have whole : ramp.length % 2 ^ 32 = 17920 := by
    have long := ramp_length
    omega
  have ok : WriteOk twoFiles (maskId 2) empty ((ramp.length % 2 ^ 32 + 511) / 512) := by
    rw [whole]
    exact WriteOk.first (fun b below => twoFiles_clear below) rfl size (by decide) (by omega)
      (by omega)
  obtain ⟨d, ino, ran, stored⟩ := put_spec .zero consistent file
    (by rw [bmod]; omega) (by rw [whole]; omega) ok
  have sized : fileBlocks ino = 35 := by
    rw [fileBlocks_eq, stored.size_eq, whole, ← ramp_length, List.take_length, ramp_length]
  have placed := (stored.consistent.owned _ ino stored.file).toPlaced
  have sameCount : (17920 + 511) / 512 = fileBlocks ino := by omega
  obtain ⟨after, next, wrote, newSize, overwritten⟩ :=
    writeFile_overwrite .zero (cStr ramp .zero) stored.file.found placed (by omega)
      sameCount (by decide)
  refine ⟨d, ino, after, next, ?_, stored.file.found, sized, ⟨victim, ?_, victimType⟩, ?_, newSize,
    overwritten⟩
  · have split := @run_append _ _ serve (construct .zero)
      [.create .file .zero, .create .file .zero] [.put 2 ramp .zero]
    rw [run_twoFiles, Option.bind_some, run_cons] at split
    refine split.trans ?_
    have served : serve twoFiles (.put 2 ramp .zero) = some d := ran
    rw [served]
    rfl
  · exact ((stored.untouched.files 3 victim (by decide)).mpr victimFile).found
  · unfold put
    rw [bmod]
    exact wrote

/-- File 2 is written over and file 3 turns from a file into a directory. -/
theorem isolation_fails : ∃ d after,
    run serve (construct .zero)
      [.create .file .zero, .create .file .zero, .put 2 ramp .zero] = some d ∧
    serve d (.put 2 ramp .zero) = some after ∧
    (getInode d (maskId 3)).isSome ∧ maskId 2 ≠ maskId 3 ∧
    (getattr d 3).type = 2 ∧ (getattr after 3).type = 1 := by
  obtain ⟨d, ino, after, next, ran, -, -, ⟨victim, found, isFile⟩, wrote, -, overwritten⟩ :=
    overwrite_ramp
  refine ⟨d, after, ran, wrote, ?_, by decide, ?_, ?_⟩
  · have masked : maskId 3 = 3 := rfl
    rw [masked, found]
    rfl
  · unfold getattr inodeAttr
    have masked : maskId 3 = 3 := rfl
    rw [masked, found]
    simp only [isFile]
    decide +kernel
  · have bytes := overwritten.low 12 (by omega) (by omega) (by decide)
    have before : load16 (d.blocks 12) 0 = 2 := by
      rw [getInode_eq, if_neg (by omega)] at found
      simp only at found
      split at found
      · cases found
      · cases found
        exact isFile
    have low : (d.blocks 12 0).toNat = 2 ∧ (d.blocks 12 1).toNat = 0 := by
      have bound0 := (d.blocks 12 0).toNat_lt
      have bound1 := (d.blocks 12 1).toNat_lt
      have value := congrArg UInt16.toNat before
      unfold load16 at value
      rw [UInt16.toNat_ofNat', Nat.zero_add] at value
      change _ % 2 ^ 16 = 2 at value
      omega
    have type : load16 (after.blocks 12) 0 = 1 := by
      unfold load16
      have lowByte : (d.blocks 12 0).toNat = (2 : UInt8).toNat := low.1
      have highByte : (d.blocks 12 (0 + 1)).toNat = (0 : UInt8).toNat := low.2
      rw [bytes 0, bytes (0 + 1), if_pos (by omega), if_pos (by omega),
        UInt8.toNat_inj.mp lowByte,
        UInt8.toNat_inj.mp highByte]
      rfl
    have foundAfter : getInode after 3 = some (Inode.load (after.blocks 12) 0) := by
      rw [getInode_eq, if_neg (by omega)]
      apply if_neg
      change load16 (after.blocks 12) 0 ≠ 0
      rw [type]
      decide
    unfold getattr inodeAttr
    have masked : maskId 3 = 3 := rfl
    rw [masked, foundAfter]
    change UInt32.ofNat (toUint32 (Int.bmod (load16 (after.blocks 12) 0).toNat (2 ^ 16))) = 1
    rw [type]
    decide +kernel

/-- File 2 is written over with what it holds; no block is allocated, and the
bytes read back are not the bytes written. -/
theorem round_trip_fails : ∃ d ino after,
    run serve (construct .zero)
      [.create .file .zero, .create .file .zero, .put 2 ramp .zero] = some d ∧
    getInode d (maskId 2) = some ino ∧ ramp.length ≤ maxfile * blockSize ∧
    fileBlocks ino = ceil ramp.length blockSize ∧
    put d .zero 2 ramp = some after ∧ ∀ later, get after later 2 ≠ some ramp := by
  obtain ⟨d, ino, after, next, ran, found, sized, -, wrote, newSize, overwritten⟩ := overwrite_ramp
  refine ⟨d, ino, after, ran, found, ?_, ?_, wrote, ?_⟩
  · rw [ramp_length]
    decide
  · rw [ramp_length, sized]
    rfl
  · intro later same
    rw [get_spec later overwritten.found overwritten.readable] at same
    have bytes := Option.some.inj same
    -- two of the first three indirect blocks are one block now
    have collide : ∀ m n, m < 35 → n < 35 → dataRef after next m = dataRef after next n →
        UInt8.ofNat m = UInt8.ofNat n := by
      intro m n belowM belowN equal
      have at' : ∀ k, k < 35 → after.blocks (dataRef after next k) 0 = UInt8.ofNat k := by
        intro k below
        have here := congrArg (fun bytes => bytes[512 * k]?) bytes
        simp only [ramp_block below] at here
        unfold contents at here
        rw [List.getElem?_map, List.getElem?_range (by rw [newSize]; omega), Option.map_some] at here
        have position : 512 * k / blockSize = k ∧ 512 * k % blockSize = 0 := by
          change 512 * k / 512 = k ∧ 512 * k % 512 = 0
          omega
        rw [position.1, position.2] at here
        exact Option.some.inj here
      rw [← at' m belowM, ← at' n belowN, equal]
    have blocks : fileBlocks next = 35 := by
      rw [overwritten.blocks_eq, sized]
    have distinct : UInt8.ofNat 32 ≠ UInt8.ofNat 33 ∧ UInt8.ofNat 32 ≠ UInt8.ofNat 34 ∧
        UInt8.ofNat 33 ≠ UInt8.ofNat 34 := by decide
    have at32 := overwritten.entries 32 (by omega) (by omega) (by omega)
    have at33 := overwritten.entries 33 (by omega) (by omega) (by omega)
    have at34 := overwritten.entries 34 (by omega) (by omega) (by omega)
    have first : dataRef after next 32 ≠ dataRef after next 33 := fun equal =>
      distinct.1 (collide 32 33 (by omega) (by omega) equal)
    have second : dataRef after next 32 ≠ dataRef after next 34 := fun equal =>
      distinct.2.1 (collide 32 34 (by omega) (by omega) equal)
    have third : dataRef after next 33 ≠ dataRef after next 34 := fun equal =>
      distinct.2.2 (collide 33 34 (by omega) (by omega) equal)
    omega

end CseLab.FileSystem
