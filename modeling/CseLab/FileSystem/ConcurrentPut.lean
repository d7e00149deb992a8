import CseLab.FileSystem.Interference
import CseLab.FileSystem.Isolation

/-! Two `put` handlers at once. As long as no handler writes a block that the
other has read and is about to write back, both files end up with the buffers
put to them; when one does, a file loses its contents. -/

namespace CseLab.FileSystem

open ByteMemory Interleaving Transition

section Transfer

variable {d : Disk} {inum : Handler → Nat} {ino : Handler → Inode} {count : Handler → Nat}
variable {h : Handler} {w : World d ino count} {next : Inode} {buf : Memory} {refs : Nat → Nat}

/-! ### Data transfer -/

structure Transferring (inum : Handler → Nat) (w : World d ino count) (h : Handler) (next : Inode)
    (buf : Memory) (refs : Nat → Nat) (n : Nat) : Prop where
  found : getInode w.disk (inum h) = some next
  supplied : Supplied d (ino h) (w.fresh h) w.disk next
  few : n ≤ fileBlocks next
  placed : ∀ k, k < fileBlocks next → dataRef w.disk next k = refs k
  stored : ∀ k, k < n → ∀ j, j < 512 → w.disk.blocks (refs k) j = buf (512 * k + j)

theorem Supplied.claims (supplied : Supplied d (ino h) (w.fresh h) w.disk next) {b : Nat}
    (member : b ∈ references w.disk next) : w.Claims h b :=
  supplied.origin member

theorem Supplied.placedIn (apart : PutsApart d inum ino count)
    (supplied : Supplied d (ino h) (w.fresh h) w.disk next) : Placed w.disk next :=
  supplied.placed (apart.owned h) (w.nodup h) (fun _b member => w.fresh_spec apart member)

theorem Transferring.claimed {n k : Nat} (transferring : Transferring inum w h next buf refs n)
    (below : k < fileBlocks next) : w.Claims h (refs k) := by
  rw [← transferring.placed k below]
  exact transferring.supplied.claims (dataRef_mem below)

theorem Transferring.rely {n : Nat} {pending : Option DiskOp} {later : World d ino count}
    (transferring : Transferring inum w h next buf refs n)
    (relied : Rely inum h pending w later) : Transferring inum later h next buf refs n where
  found := relied.record.trans transferring.found
  few := transferring.few
  supplied := transferring.supplied.rely relied
  placed := by
    intro k below
    rw [← transferring.placed k below]
    exact dataRef_congr below (fun b member =>
      relied.blocks b (transferring.supplied.claims member))
  stored := by
    intro k below j inBlock
    have few := transferring.few
    rw [relied.blocks _ (transferring.claimed (by omega))]
    exact transferring.stored k below j inBlock

theorem Transferring.advance (apart : PutsApart d inum ino count) {n : Nat}
    (transferring : Transferring inum w h next buf refs n) (below : n < fileBlocks next)
    (outside : 10 ≤ refs n) :
    Transferring inum (w.write apart (refs n) (shift buf (blockSize * n)) outside) h next buf refs
      (n + 1) := by
  have placed := transferring.supplied.placedIn apart
  have claimed := transferring.claimed below
  have index : 32 < fileBlocks next →
      (w.disk.writeBlock (refs n) (shift buf (blockSize * n))).blocks next.indexBlock =
        w.disk.blocks next.indexBlock := by
    intro indirect
    apply Disk.writeBlock_other
    rw [← transferring.placed n below]
    exact (placed.index_ne indirect n below).symm
  refine ⟨?_, transferring.supplied.congr index, below, ?_, ?_⟩
  · rw [← transferring.found]
    exact getInode_congr (Disk.writeBlock_other _ _ (claimed.not_record apart h).symm)
  · intro k inside
    rw [← transferring.placed k inside]
    exact dataRef_index_congr inside index
  · intro k inside j inBlock
    change (w.disk.writeBlock (refs n) _).blocks (refs k) j = _
    rw [Disk.writeBlock_apply]
    by_cases last : k = n
    · subst last
      rw [if_pos ⟨(claimed.data apart).2, rfl, inBlock⟩]
      rfl
    · have different : refs k ≠ refs n := by
        intro same
        rw [← transferring.placed k (by omega), ← transferring.placed n below] at same
        exact last (placed.injective k n (by omega) below same)
      rw [if_neg (fun all => different all.2.1)]
      exact transferring.stored k (by omega) j inBlock

theorem safe_transfer (apart : PutsApart d inum ino count) {n : Nat}
    (transferring : Transferring inum w h next buf refs n) (below : n < fileBlocks next) :
    (sharing d inum ino count).Safe h
      (fun _ later => Transferring inum later h next buf refs (n + 1))
      (Stepwise.writeBlock (refs n) (shift buf (blockSize * n))) w := by
  apply safe_write apart (transferring.claimed below)
  intro later outside relied
  have moved := (transferring.rely relied).advance apart below outside
  exact Discipline.Safe.ret moved (fun last reliedLast holds => holds.rely reliedLast)

theorem safe_writeDirect (apart : PutsApart d inum ino count) {limit : Nat} (direct : limit ≤ 32)
    (few : limit ≤ fileBlocks next) (transferring : Transferring inum w h next buf refs 0) :
    (sharing d inum ino count).Safe h
      (fun _ later => Transferring inum later h next buf refs limit)
      (Stepwise.writeDirect next buf limit) w := by
  unfold Stepwise.writeDirect
  apply Discipline.Safe.foldlM_range
    (fun n _ (later : World d ino count) => Transferring inum later h next buf refs n)
  · exact fun _n _ _world _later relied holds => holds.rely relied
  · exact transferring
  · intro n _ world below holds
    rw [next.block_eq (by omega), ← dataRef_direct world.disk next (by omega),
      holds.placed n (by omega)]
    exact safe_transfer apart holds (by omega)

theorem safe_writeIndirect (apart : PutsApart d inum ino count) {entries : Memory} {n : Nat}
    (all : 32 + n = fileBlocks next)
    (entry : ∀ i, i < n → indirectEntry entries i = some (refs (32 + i)))
    (transferring : Transferring inum w h next buf refs 32) :
    (sharing d inum ino count).Safe h
      (fun _ later => Transferring inum later h next buf refs (32 + n))
      (Stepwise.writeIndirect entries buf 32 n) w := by
  unfold Stepwise.writeIndirect
  apply Discipline.Safe.foldlM_range
    (fun i _ (later : World d ino count) => Transferring inum later h next buf refs (32 + i))
  · exact fun _n _ _world _later relied holds => holds.rely relied
  · exact transferring
  · intro i _ world below holds
    have inside : 32 + i < fileBlocks next := by omega
    rw [entry i below]
    exact safe_transfer apart holds inside

theorem safe_writeData (apart : PutsApart d inum ino count) (uninit : Uninit)
    (transferring : Transferring inum w h next buf refs 0) :
    (sharing d inum ino count).Safe h
      (fun _ later => Transferring inum later h next buf refs (fileBlocks next))
      (Stepwise.writeData uninit next (fileBlocks next) buf) w := by
  have most := (transferring.supplied.placedIn apart).readable.fileBlocks_le
  have limit : min (fileBlocks next) ndirect = min (fileBlocks next) 32 := rfl
  unfold Stepwise.writeData
  simp only [limit]
  apply Discipline.Safe.bind _ (safe_writeDirect apart (Nat.min_le_right _ _) (Nat.min_le_left _ _)
    transferring)
  intro _ later holds
  by_cases small : fileBlocks next ≤ 32
  · have noIndex : fileBlocks next ≤ ndirect := small
    rw [if_pos noIndex]
    rw [Nat.min_eq_left small] at holds
    exact Discipline.Safe.ret holds (fun last relied same => same.rely relied)
  · have hasIndex : ¬fileBlocks next ≤ ndirect := small
    rw [if_neg hasIndex, Nat.min_eq_right (by omega),
      Stepwise.readBlock_bind]
    rw [Nat.min_eq_right (by omega)] at holds
    apply safe_read
    intro last relied
    have kept := holds.rely relied
    have index := (kept.supplied.placedIn apart).inData _ (indexBlock_mem (by omega))
    have all : 32 + (fileBlocks next - 32) = fileBlocks next := by omega
    have transfer := safe_writeIndirect apart all (fun i below => by
      rw [indirectEntry_readBlock uninit.indirectBlocksAgain index.2 (by omega),
        kept.placed _ (by omega)]) kept
    rw [all] at transfer
    exact transfer

theorem Transferring.contents_eq
    (transferring : Transferring inum w h next buf refs (fileBlocks next)) :
    contents w.disk next = (List.range next.size.toNat).map buf := by
  unfold contents
  apply List.map_congr_left
  intro k member
  rw [List.mem_range] at member
  have below : k / 512 < fileBlocks next := by
    rw [fileBlocks_eq]
    omega
  change w.disk.blocks (dataRef w.disk next (k / 512)) (k % 512) = buf k
  rw [transferring.placed _ below, transferring.stored _ below _ (by omega)]
  congr 1
  omega

/-! ### The whole handler -/

theorem safe_putInode (apart : PutsApart d inum ino count) {size : UInt32}
    (arranged : Arranged w h size next) (buf : Memory) :
    (sharing d inum ino count).Safe h
      (fun _ later => ∃ refs,
        Transferring inum later h { next with size := size } buf refs 0)
      (Stepwise.putInode (inum h) { next with size := size }) w := by
  have inTable := getInode_lt (apart.live h)
  have present : next.type ≠ 0 := by
    rw [arranged.same]
    change (ino h).type ≠ 0
    exact getInode_type (apart.live h)
  unfold Stepwise.putInode
  rw [iblock_eq]
  apply safe_update
  intro last relied
  have kept := (arranged.rely relied).supplied
  have outside : 10 ≤ 11 + inum h / 3 := by omega
  have writes := last.write_record apart { next with size := size } outside
  refine ⟨_, writes, ?_⟩
  apply Discipline.Safe.ret
  · refine ⟨_, ?_, kept.congr ?_, Nat.zero_le _, fun _ _ => rfl, fun k below => ?_⟩
    · have stored := getInode_putInode_self last.disk { next with size := size } inTable
      unfold putInode at stored
      rw [iblock_eq, if_neg present] at stored
      exact stored
    · intro indirect
      apply Disk.writeBlock_other
      exact (kept.claims (indexBlock_mem indirect)).not_record apart h
    · exact absurd below (Nat.not_lt_zero k)
  · rintro later reliedLater ⟨refs, holds⟩
    exact ⟨refs, holds.rely reliedLater⟩

theorem safe_getInode (apart : PutsApart d inum ino count) (arranging : Arranging w h [])
    (found : getInode w.disk (inum h) = some (ino h)) :
    (sharing d inum ino count).Safe h
      (fun result later => result = some (ino h) ∧ Arranging later h [])
      (Stepwise.getInode (inum h)) w := by
  have inTable := getInode_lt (apart.live h)
  unfold Stepwise.getInode
  have inRange : ¬inodeNum ≤ inum h := Nat.not_le.mpr inTable
  rw [if_neg inRange, Stepwise.readBlock_bind]
  apply safe_read
  intro later relied
  have here : getInode later.disk (inum h) = some (ino h) := relied.record.trans found
  unfold getInode at here
  rw [if_neg inRange] at here
  exact Discipline.Safe.ret ⟨here, arranging.rely relied⟩
    (fun last reliedLast holds => ⟨holds.1, holds.2.rely reliedLast⟩)

theorem safe_finish (apart : PutsApart d inum ino count) (uninit : Uninit) {size : UInt32}
    (arranged : Arranged w h size next) (counted : (size.toNat + 511) / 512 = count h)
    (buf : Memory) :
    (sharing d inum ino count).Safe h
      (fun _ later => ∃ next refs, Transferring inum later h next buf refs (fileBlocks next) ∧
        next.size = size)
      (Stepwise.putInode (inum h) { next with size := size } >>= fun _ =>
        Stepwise.writeData uninit { next with size := size } (count h) buf) w := by
  have blocks : fileBlocks { next with size := size } = count h := by
    rw [fileBlocks_eq]
    exact counted
  apply Discipline.Safe.bind _ (safe_putInode apart arranged buf)
  rintro _ later ⟨refs, transferring⟩
  rw [← blocks]
  apply (safe_writeData apart uninit transferring).weaken
  intro _ last done
  exact ⟨_, refs, done, rfl⟩

theorem arranged_kept (apart : PutsApart d inum ino count) {size : UInt32}
    (shrinks : count h ≤ fileBlocks (ino h)) (counted : (size.toNat + 511) / 512 = count h) :
    Arranged w h size (ino h) := by
  have few := apart.few h
  have blocks : fileBlocks { ino h with size := size } = count h := by
    rw [fileBlocks_eq]
    exact counted
  have direct : count h ≤ 32 := by
    rcases apart.oneSide h with old | new <;> omega
  refine ⟨rfl, .inr (blocks.trans_le direct), ?_, ?_, ?_, ?_⟩
  · change size.toNat ≤ 81920
    omega
  · intro n _kept below
    rw [blocks] at below
    rw [dataRef_inode _ _ _ (by omega), dataRef_direct _ _ (by omega)]
  · intro n lower below
    rw [blocks] at below
    omega
  · intro indirect
    rw [blocks] at indirect
    omega

theorem safe_writeFile (apart : PutsApart d inum ino count) (uninit : Uninit) (buf : Memory)
    {size : Nat} (small : size ≤ 81920) (counted : (size + 511) / 512 = count h)
    (arranging : Arranging w h []) (found : getInode w.disk (inum h) = some (ino h)) :
    (sharing d inum ino count).Safe h
      (fun _ later => ∃ next refs, Transferring inum later h next buf refs (fileBlocks next) ∧
        next.size.toNat = size)
      (Stepwise.writeFile uninit (inum h) buf size) w := by
  have size32 : (UInt32.ofNat (toUint32 size)).toNat = size := toNat_toUint32 (by omega)
  have counted32 : ((UInt32.ofNat (toUint32 size)).toNat + 511) / 512 = count h := by
    rw [size32, counted]
  have original : ceil (ino h).size.toNat blockSize = fileBlocks (ino h) := rfl
  unfold Stepwise.writeFile
  apply Discipline.Safe.bind _ (safe_getInode apart arranging found)
  rintro _ later ⟨rfl, ready⟩
  have int : size < 2 ^ 31 := by omega
  simp only [toUint32_ceilInt int, original, counted]
  have allowed : ¬maxfile < count h := Nat.not_lt.mpr (apart.few h)
  rw [if_neg allowed]
  have finish : ∀ next (world : World d ino count),
      Arranged world h (UInt32.ofNat (toUint32 size)) next →
      (sharing d inum ino count).Safe h
        (fun _ later => ∃ next refs, Transferring inum later h next buf refs (fileBlocks next) ∧
          next.size.toNat = size)
        (Stepwise.putInode (inum h) { next with size := UInt32.ofNat (toUint32 size) } >>= fun _ =>
          Stepwise.writeData uninit { next with size := UInt32.ofNat (toUint32 size) } (count h)
            buf) world := by
    intro next world arranged
    apply (safe_finish apart uninit arranged counted32 buf).weaken
    rintro _ last ⟨after, refs, done, sized⟩
    exact ⟨after, refs, done, by rw [sized, size32]⟩
  by_cases grows : fileBlocks (ino h) < count h
  · rw [if_pos grows]
    apply Discipline.Safe.bind _ (safe_growFile apart uninit grows counted32 ready.given)
    exact finish
  · rw [if_neg grows]
    apply Discipline.Safe.bind _ (safe_shrinkFile apart uninit (Nat.not_lt.mp grows) ready)
    intro _ world _
    exact finish _ world (arranged_kept apart (Nat.not_lt.mp grows) counted32)

end Transfer

/-! ### Two handlers -/

def puts (d : Disk) (memory : Handler → Uninit) (id : Handler → Nat)
    (buf : Handler → List UInt8) : Pool Handler Disk DiskOp Memory Unit :=
  { state := d, scripts := fun h => Stepwise.put (memory h) (id h) (buf h) }

/-- If no step of either handler writes a block that the other has read and is
about to write back, then both return, and `get` gives back what each has put. -/
theorem concurrent_puts {d : Disk} {id : Handler → Nat} {ino : Handler → Inode}
    {buf : Handler → List UInt8} (memory : Handler → Uninit)
    (apart : PutsApart d (fun h => maskId (id h)) ino (fun h => ceil (buf h).length blockSize))
    (small : ∀ h, (buf h).length ≤ maxfile * blockSize)
    {schedule : List Handler} {final : Pool Handler Disk DiskOp Memory Unit}
    (clear : Guarded (Pool.step Disk.act) (Pool.Clear DiskOp.Overlaps) (puts d memory id buf)
      schedule)
    (ran : run (Pool.step Disk.act) (puts d memory id buf) schedule = some final)
    (finished : ∀ h, (final.scripts h).pending = none) (h : Handler) :
    final.scripts h = .ret () ∧
      ∀ later, get final.state later (id h) = some (buf h) := by
  have safe : ∀ h, (sharing d (fun h => maskId (id h)) ino
      (fun h => ceil (buf h).length blockSize)).Safe h
      (fun _ later => ∃ next refs, Transferring (fun h => maskId (id h)) later h next
        (cStr (buf h) (memory h)) refs (fileBlocks next) ∧ next.size.toNat = (buf h).length)
      (Stepwise.put (memory h) (id h) (buf h)) (World.start d ino _) := by
    intro h
    have few := small h
    change (buf h).length ≤ 81920 at few
    have size : Int.bmod (buf h).length (2 ^ 32) = ((buf h).length : Int) := by
      apply Int.bmod_eq_of_le <;> omega
    unfold Stepwise.put
    rw [size]
    exact safe_writeFile apart (memory h) (cStr (buf h) (memory h)) few (ceil_eq _).symm
      ⟨rfl, fun _ _ => rfl⟩ (apart.live h)
  have start : (sharing d (fun h => maskId (id h)) ino
      (fun h => ceil (buf h).length blockSize)).Holds
      (fun h _ later => ∃ next refs, Transferring (fun h => maskId (id h)) later h next
        (cStr (buf h) (memory h)) refs (fileBlocks next) ∧ next.size.toNat = (buf h).length)
      (puts d memory id buf) := ⟨World.start d ino _, rfl, safe⟩
  obtain ⟨world, viewed, all⟩ := (start.run clear ran).returned finished
  obtain ⟨_, returned, next, refs, done, sized⟩ := all h
  refine ⟨returned, fun later => ?_⟩
  have readable := (done.supplied.placedIn apart).readable
  have bytes := done.contents_eq
  change world.disk = final.state at viewed
  rw [sized, map_cStr (buf h) (memory h) (Nat.le_refl _), List.take_length] at bytes
  rw [← viewed, get_spec later done.found readable, bytes]

theorem PutsApart.ofConsistent {d : Disk} {inum : Handler → Nat} {ino : Handler → Inode}
    {count : Handler → Nat} (consistent : Consistent d)
    (files : ∀ h, FileAt d (inum h) (ino h)) (distinct : inum .first ≠ inum .second)
    (oneSide : ∀ h, fileBlocks (ino h) ≤ 32 ∨ count h ≤ 32) (few : ∀ h, count h ≤ 160)
    (succeed : AllocsSucceed d (totalNeed ino count))
    (spares : ∀ h, ∀ id ∈ freedByPut d (ino h) (count h), ∀ call < totalNeed ino count,
      ∀ b, 352 ≤ b → b ≤ nthAlloc d call → ¬Clears id b)
    (last : ∀ h, inum h = inodeNum - 1 → totalNeed ino count = 0) :
    PutsApart d inum ino count where
  distinct := distinct
  live := fun h => (files h).found
  owned := fun h => consistent.owned _ _ (files h)
  disjoint := consistent.disjoint _ _ _ _ distinct (files .first) (files .second)
  oneSide := oneSide
  few := few
  succeed := succeed
  spares := spares
  last := fun h isLast => ⟨(files h).last isLast, last h isLast⟩

def createdFile : Inode := { Uninit.zero.ino with type := 2, size := 0 }

def twoIds : Handler → Nat
  | .first => 2
  | .second => 3

def twoBufs : Handler → List UInt8
  | .first => [7]
  | .second => [9]

theorem twoFiles_apart :
    PutsApart twoFiles (fun h => maskId (twoIds h)) (fun _ => createdFile)
      (fun h => ceil (twoBufs h).length blockSize) := by
  have one : ∀ h, ceil (twoBufs h).length blockSize = 1 := by
    intro h
    cases h <;> rfl
  have empty : fileBlocks createdFile = 0 := rfl
  have found : ∀ h, getInode twoFiles (maskId (twoIds h)) = some createdFile := by
    decide +kernel
  have notLast : ∀ h, maskId (twoIds h) ≠ inodeNum - 1 := by
    decide
  simp only [one]
  apply PutsApart.ofConsistent (run_consistent (@guarded_twoFiles [] trivial) run_twoFiles)
  · exact fun h => ⟨found h, fun isLast => absurd isLast (notLast h)⟩
  · decide
  · exact fun _ => .inl (Nat.zero_le _)
  · exact fun _ => by decide
  · exact allocsSucceed_fresh (fun _b => twoFiles_clear) (by decide)
  · intro h id freed
    unfold freedByPut at freed
    rw [empty, if_pos Nat.one_pos] at freed
    cases freed
  · exact fun h isLast => absurd isLast (notLast h)

theorem concurrent_puts_two :
    ∃ final, run (Pool.step Disk.act) (puts twoFiles (fun _ => .zero) twoIds twoBufs)
        [.first, .second, .first, .first, .first, .second, .second, .first, .second, .second,
          .first, .second] = some final ∧
      get final.state .zero 2 = some [7] ∧ get final.state .zero 3 = some [9] := by
  have ends : ((run (Pool.step Disk.act) (puts twoFiles (fun _ => .zero) twoIds twoBufs)
      [.first, .second, .first, .first, .first, .second, .second, .first, .second, .second,
        .first, .second]).any
      fun final => decide (∀ h, (final.scripts h).pending.isNone)) = true := by
    decide +kernel
  obtain ⟨final, ran, idle⟩ := (Option.any_eq_true _ _).mp ends
  have finished : ∀ h, (final.scripts h).pending = none :=
    fun h => Option.isNone_iff_eq_none.mp (of_decide_eq_true idle h)
  have stored := fun h => (concurrent_puts (fun _ => .zero) twoFiles_apart (by decide)
    (by decide +kernel) ran finished h).2 .zero
  exact ⟨final, ran, stored .first, stored .second⟩

/-- Both handlers read the bitmap before either writes it, and get one block. -/
theorem put_lost :
    ∃ final, run serve (construct .zero) [.create .file .zero, .create .file .zero] =
        some twoFiles ∧
      PutsApart twoFiles (fun h => maskId (twoIds h)) (fun _ => createdFile)
        (fun h => ceil (twoBufs h).length blockSize) ∧
      run (Pool.step Disk.act) (puts twoFiles (fun _ => .zero) twoIds twoBufs)
        [.first, .first, .second, .second, .first, .first, .first, .first, .second, .second,
          .second, .second] = some final ∧
      (∀ h, (final.scripts h).pending = none) ∧
      get final.state .zero 2 = some [9] ∧ get final.state .zero 3 = some [9] := by
  have ends : ((run (Pool.step Disk.act) (puts twoFiles (fun _ => .zero) twoIds twoBufs)
      [.first, .first, .second, .second, .first, .first, .first, .first, .second, .second,
        .second, .second]).any
      fun final => decide ((∀ h, (final.scripts h).pending.isNone) ∧
        get final.state .zero 2 = some [9] ∧ get final.state .zero 3 = some [9])) = true := by
    decide +kernel
  obtain ⟨final, ran, shown⟩ := (Option.any_eq_true _ _).mp ends
  obtain ⟨idle, lost⟩ := of_decide_eq_true shown
  exact ⟨final, run_twoFiles, twoFiles_apart, ran,
    fun h => Option.isNone_iff_eq_none.mp (idle h), lost⟩

end CseLab.FileSystem
