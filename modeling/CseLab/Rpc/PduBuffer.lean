import CseLab.Lib.Bounds
import CseLab.Rpc.Framing

/-! `readpdu` and the block behind `rpdu_.buf`: what is allocated for an announced
length, and what is stored in it. The length word is signed, while the sizes given
to `malloc` and `read` are not. -/

namespace CseLab.Rpc

open Bounds BigEndian Transition

/-- `rpdu_`, with the size of the block at `rpdu_.buf`. -/
structure PduBuffer where
  rpdu : Charbuf
  capacity : Nat

def PduBuffer.empty : PduBuffer := { rpdu := Charbuf.empty, capacity := 0 }

def PduBuffer.request (b : PduBuffer) : Access :=
  { offset := b.rpdu.solong.toNat, count := sizeT (b.rpdu.sz - b.rpdu.solong), capacity := b.capacity }

def PduBuffer.readRest (b : PduBuffer) (stream : List UInt8) :
    ReadResult → Option (Nat × PduBuffer × Bool)
  | .again => some (0, b, true)
  | .failed => some (0, PduBuffer.empty, false)
  | .got n =>
      if n = 0 ∨ b.request.count < n ∨ stream.length < n then none
      else
        some (n, { b with
          rpdu := { b.rpdu with
            buf := b.rpdu.buf.map (· ++ stream.take n)
            solong := b.rpdu.solong + n } }, true)

inductive PduResult where
  | aborted
  | returned (taken : Nat) (b : PduBuffer) (ok : Bool) (accesses : List Access)

/-- The length word, as the `int` it is taken for. -/
def announcedLength (stream : List UInt8) : Int :=
  (word32 (stream.take sizeofRpcSz)).toInt32.toInt

def PduBuffer.allocated (stream : List UInt8) (capacity : Nat) : PduBuffer :=
  { rpdu :=
      { buf := some (stream.take sizeofRpcSz), sz := announcedLength stream, solong := sizeofRpcSz }
    capacity := capacity }

def PduBuffer.begin (b : PduBuffer) (stream : List UInt8) (second : ReadResult) :
    Option PduResult :=
  let sz := announcedLength stream
  if maxPdu < sz then some (.returned sizeofRpcSz b false [])
  else if b.rpdu.buf.isSome then some .aborted
  else
    match malloc (sizeT (sz + sizeofRpcSz)) with
    | none => some .aborted
    | some capacity =>
        let b := PduBuffer.allocated stream capacity
        (b.readRest (stream.drop sizeofRpcSz) second).map fun (more, after, ok) =>
          .returned (sizeofRpcSz + more) after ok
            [{ offset := 0, count := sizeofRpcSz, capacity := capacity }, b.request]

/-- `readpdu`; undefined for results that the two calls of `read` cannot have. -/
def PduBuffer.readpdu (b : PduBuffer) (stream : List UInt8) (first second : ReadResult) :
    Option PduResult :=
  if b.rpdu.sz = 0 then
    match first with
    | .again => some .aborted
    | .failed => some (.returned 0 b false [])
    | .got n =>
        if n = 0 ∨ sizeofRpcSz < n ∨ stream.length < n then none
        else if n < sizeofRpcSz then some (.returned n b false [])
        else b.begin stream second
  else
    (b.readRest stream second).map fun (taken, after, ok) => .returned taken after ok [b.request]

/-- A reading end and the bytes its peer sends, with what the last step did:
the length it was told, its stores, and whether it was the last of the process. -/
structure PduReader where
  dead : Bool
  buffer : PduBuffer
  stream : List UInt8
  announced : Option Int
  accesses : List Access
  aborted : Bool

def PduReader.start (stream : List UInt8) : PduReader :=
  { dead := false, buffer := PduBuffer.empty, stream := stream, announced := none,
    accesses := [], aborted := false }

def Charbuf.unread (rpdu : Charbuf) : Bool := rpdu.buf.isNone || decide (rpdu.solong < rpdu.sz)

def PduReader.announces (r : PduReader) : ReceiveAction → Option Int
  | .readCb (.got n) _ _ =>
      if r.dead = false ∧ r.buffer.rpdu.unread = true ∧ r.buffer.rpdu.sz = 0 ∧ n = sizeofRpcSz then
        some (announcedLength r.stream)
      else none
  | _ => none

/-- The step takes no length word below four. -/
def PduReader.Proper (r : PduReader) (action : ReceiveAction) : Prop :=
  ∀ sz ∈ r.announces action, (sizeofRpcSz : Int) ≤ sz

instance (r : PduReader) (action : ReceiveAction) : Decidable (r.Proper action) :=
  inferInstanceAs (Decidable (∀ sz ∈ r.announces action, (sizeofRpcSz : Int) ≤ sz))

def PduBuffer.offer (b : PduBuffer) (takes : Bool) : PduBuffer :=
  if b.rpdu.buf.isSome ∧ b.rpdu.sz = b.rpdu.solong ∧ takes = true then PduBuffer.empty else b

def PduReader.step (r : PduReader) (action : ReceiveAction) : Option PduReader :=
  if r.aborted then none
  else
    let quiet := { r with announced := r.announces action, accesses := [] }
    match action with
    | .close => some { quiet with dead := true }
    | .readCb first second takes =>
        if r.dead then some quiet
        else if r.buffer.rpdu.unread then
          (r.buffer.readpdu r.stream first second).map fun
            | .aborted => { quiet with aborted := true }
            | .returned taken after ok accesses =>
                { quiet with
                  dead := !ok
                  buffer := after.offer takes
                  stream := r.stream.drop taken
                  accesses := accesses }
        else some { quiet with buffer := r.buffer.offer takes }

/-! ### Bounds -/

/-- Between calls the buffer is empty, or a PDU of a proper length is being read
into a block that has room for it. -/
def PduBuffer.InBounds (b : PduBuffer) : Prop :=
  b.rpdu = Charbuf.empty ∨
    (b.rpdu.buf.isSome = true ∧ (sizeofRpcSz : Int) ≤ b.rpdu.solong ∧
      b.rpdu.solong ≤ b.rpdu.sz ∧ b.rpdu.sz ≤ maxPdu ∧ b.rpdu.sz ≤ b.capacity)

/-- Every store of the last step is inside the block, the buffer is in bounds,
and a length that is not that of a PDU has made the connection fail. -/
structure PduReader.Safe (r : PduReader) : Prop where
  fits : ∀ access ∈ r.accesses, access.Fits
  inBounds : r.buffer.InBounds
  refuses : ∀ sz, r.announced = some sz → sz < sizeofRpcSz ∨ (maxPdu : Int) < sz →
    r.dead = true ∧ r.aborted = false

theorem PduBuffer.empty_inBounds : PduBuffer.empty.InBounds := Or.inl rfl

theorem PduBuffer.InBounds.offer {b : PduBuffer} (inBounds : b.InBounds) (takes : Bool) :
    (b.offer takes).InBounds := by
  unfold PduBuffer.offer
  split
  · exact PduBuffer.empty_inBounds
  · exact inBounds

theorem PduBuffer.InBounds.idle {b : PduBuffer} (inBounds : b.InBounds) (none : b.rpdu.sz = 0) :
    b.rpdu = Charbuf.empty := by
  rcases inBounds with empty | ⟨-, lower, upper, -, -⟩
  · exact empty
  · change 4 ≤ b.rpdu.solong at lower
    omega

theorem PduBuffer.InBounds.request_fits {b : PduBuffer} (inBounds : b.InBounds)
    (busy : b.rpdu.sz ≠ 0) :
    b.request.Fits ∧ (b.request.count : Int) = b.rpdu.sz - b.rpdu.solong := by
  rcases inBounds with empty | ⟨-, lower, upper, small, room⟩
  · rw [empty] at busy
    exact absurd rfl busy
  · change 4 ≤ b.rpdu.solong at lower
    change b.rpdu.sz ≤ 10485760 at small
    have count : (b.request.count : Int) = b.rpdu.sz - b.rpdu.solong :=
      sizeT_nonneg (by omega) (by omega)
    refine ⟨?_, count⟩
    have offset : (b.request.offset : Int) = b.rpdu.solong := Int.toNat_of_nonneg (by omega)
    change b.request.offset + b.request.count ≤ b.capacity
    omega

theorem PduBuffer.InBounds.readRest {b after : PduBuffer} {stream : List UInt8}
    {result : ReadResult} {taken : Nat} {ok : Bool} (inBounds : b.InBounds)
    (busy : b.rpdu.sz ≠ 0) (ran : b.readRest stream result = some (taken, after, ok)) :
    after.InBounds := by
  obtain ⟨-, count⟩ := inBounds.request_fits busy
  cases result with
  | again =>
      cases ran
      exact inBounds
  | failed =>
      cases ran
      exact PduBuffer.empty_inBounds
  | got n =>
      unfold PduBuffer.readRest at ran
      dsimp only at ran
      split at ran
      · cases ran
      · rename_i possible
        cases ran
        rcases inBounds with empty | ⟨some', lower, upper, small, room⟩
        · rw [empty] at busy
          exact absurd rfl busy
        · refine Or.inr ⟨?_, ?_, ?_, small, room⟩
          · rw [Option.isSome_map]
            exact some'
          · change (4 : Int) ≤ b.rpdu.solong + taken
            change (4 : Int) ≤ b.rpdu.solong at lower
            omega
          · change b.rpdu.solong + (taken : Int) ≤ b.rpdu.sz
            omega

/-- What `readpdu` does with a length below that of the word itself: it aborts, or
it makes a store that the block has no room for. -/
theorem PduBuffer.begin_short {b : PduBuffer} {stream : List UInt8} {second : ReadResult}
    {result : PduResult} (idle : b.rpdu = Charbuf.empty)
    (short : announcedLength stream < sizeofRpcSz) (ran : b.begin stream second = some result) :
    result = .aborted ∨ ∃ taken after ok accesses, result = .returned taken after ok accesses ∧
      ∃ access ∈ accesses, ¬access.Fits := by
  have lower : (-2 ^ 31 : Int) ≤ announcedLength stream := Int32.le_toInt _
  change announcedLength stream < 4 at short
  unfold PduBuffer.begin at ran
  dsimp only at ran
  rw [if_neg (by change ¬((10485760 : Int) < announcedLength stream); omega), idle,
    if_neg (by exact Bool.noConfusion)] at ran
  by_cases huge : announcedLength stream < -4
  · have size := sizeT_neg (x := announcedLength stream + 4) (by omega) (by omega)
    rw [malloc_none (by change 2 ^ 63 ≤ sizeT (announcedLength stream + 4); omega)] at ran
    cases ran
    exact Or.inl rfl
  · have size := sizeT_nonneg (x := announcedLength stream + 4) (by omega) (by omega)
    rw [malloc_some (by change sizeT (announcedLength stream + 4) < 2 ^ 63; omega)] at ran
    obtain ⟨⟨more, after, ok⟩, -, rfl⟩ := Option.map_eq_some_iff.mp ran
    refine Or.inr ⟨_, _, _, _, rfl, ?_⟩
    by_cases negative : announcedLength stream < 0
    · refine ⟨_, List.mem_cons_self, ?_⟩
      change ¬(0 + 4 ≤ sizeT (announcedLength stream + 4))
      omega
    · refine ⟨_, List.mem_cons_of_mem _ (List.mem_singleton_self _), ?_⟩
      have count := sizeT_neg (x := announcedLength stream - 4) (by omega) (by omega)
      change ¬(4 + sizeT (announcedLength stream - 4) ≤ sizeT (announcedLength stream + 4))
      omega

theorem PduBuffer.begin_alloc {b : PduBuffer} {stream : List UInt8} (second : ReadResult)
    (idle : b.rpdu = Charbuf.empty) (lower : (sizeofRpcSz : Int) ≤ announcedLength stream)
    (upper : announcedLength stream ≤ maxPdu) :
    ∃ capacity : Nat, announcedLength stream + 4 = capacity ∧
      (PduBuffer.allocated stream capacity).InBounds ∧
      b.begin stream second =
        ((PduBuffer.allocated stream capacity).readRest (stream.drop sizeofRpcSz) second).map
          fun (more, after, ok) => .returned (sizeofRpcSz + more) after ok
            [{ offset := 0, count := sizeofRpcSz, capacity := capacity },
              (PduBuffer.allocated stream capacity).request] := by
  have small : announcedLength stream ≤ 10485760 := upper
  have size := sizeT_nonneg (x := announcedLength stream + 4)
    (by change (4 : Int) ≤ announcedLength stream at lower; omega) (by omega)
  refine ⟨sizeT (announcedLength stream + 4), size.symm, ?_, ?_⟩
  · refine Or.inr ⟨rfl, Int.le_refl _, lower, upper, ?_⟩
    change announcedLength stream ≤ (sizeT (announcedLength stream + 4) : Int)
    omega
  · unfold PduBuffer.begin
    dsimp only
    rw [if_neg (Int.not_lt.mpr upper), idle, if_neg (by exact Bool.noConfusion),
      malloc_some (by change sizeT (announcedLength stream + 4) < 2 ^ 63; omega)]
    rfl

theorem PduBuffer.begin_proper {b : PduBuffer} {stream : List UInt8} {second : ReadResult}
    {result : PduResult} (idle : b.rpdu = Charbuf.empty)
    (lower : (sizeofRpcSz : Int) ≤ announcedLength stream) (upper : announcedLength stream ≤ maxPdu)
    (ran : b.begin stream second = some result) :
    ∃ taken after ok accesses, result = .returned taken after ok accesses ∧ after.InBounds ∧
      ∀ access ∈ accesses, access.Fits := by
  obtain ⟨capacity, size, room, allocated⟩ := PduBuffer.begin_alloc second idle lower upper
  rw [allocated] at ran
  obtain ⟨⟨more, after, ok⟩, read, rfl⟩ := Option.map_eq_some_iff.mp ran
  change (4 : Int) ≤ announcedLength stream at lower
  have busy : (PduBuffer.allocated stream capacity).rpdu.sz ≠ 0 := by
    change announcedLength stream ≠ 0
    omega
  refine ⟨_, _, _, _, rfl, room.readRest busy read, ?_⟩
  intro access member
  rcases List.mem_cons.mp member with rfl | member
  · change 0 + 4 ≤ capacity
    omega
  · rw [List.mem_singleton.mp member]
    exact (room.request_fits busy).1

theorem PduBuffer.readpdu_silent {b : PduBuffer} {stream : List UInt8} {first second : ReadResult}
    {result : PduResult} (inBounds : b.InBounds)
    (silent : b.rpdu.sz = 0 → first ≠ .got sizeofRpcSz)
    (ran : b.readpdu stream first second = some result) :
    result = .aborted ∨ ∃ taken after ok accesses, result = .returned taken after ok accesses ∧
      after.InBounds ∧ ∀ access ∈ accesses, access.Fits := by
  unfold PduBuffer.readpdu at ran
  split at ran
  · rename_i idle
    cases first with
    | again =>
        cases ran
        exact Or.inl rfl
    | failed =>
        cases ran
        exact Or.inr ⟨0, b, false, [], rfl, inBounds, List.forall_mem_nil _⟩
    | got n =>
        dsimp only at ran
        split at ran
        · cases ran
        · split at ran
          · cases ran
            exact Or.inr ⟨n, b, false, [], rfl, inBounds, List.forall_mem_nil _⟩
          · rename_i possible whole
            have word : n = sizeofRpcSz := by omega
            exact absurd (congrArg ReadResult.got word) (silent idle)
  · rename_i busy
    obtain ⟨⟨taken, after, ok⟩, read, rfl⟩ := Option.map_eq_some_iff.mp ran
    refine Or.inr ⟨taken, after, ok, [b.request], rfl, inBounds.readRest busy read, ?_⟩
    intro access member
    rw [List.mem_singleton.mp member]
    exact (inBounds.request_fits busy).1

theorem PduBuffer.readpdu_word {b : PduBuffer} {stream : List UInt8} {second : ReadResult}
    {result : PduResult} (idle : b.rpdu.sz = 0)
    (ran : b.readpdu stream (.got sizeofRpcSz) second = some result) :
    b.begin stream second = some result := by
  unfold PduBuffer.readpdu at ran
  rw [if_pos idle] at ran
  dsimp only at ran
  split at ran
  · cases ran
  · rw [if_neg (Nat.lt_irrefl _)] at ran
    exact ran

theorem PduBuffer.begin_large {b : PduBuffer} {stream : List UInt8} {second : ReadResult}
    (large : (maxPdu : Int) < announcedLength stream) :
    b.begin stream second = some (.returned sizeofRpcSz b false []) := by
  unfold PduBuffer.begin
  exact if_pos large

/-! ### The reading half of a connection -/

theorem PduBuffer.InBounds.readRest_eq {b : PduBuffer} {stream : List UInt8} {result : ReadResult}
    {taken : Nat} {rpdu : Charbuf} {ok : Bool} (inBounds : b.InBounds) (busy : b.rpdu.sz ≠ 0)
    (ran : Rpc.readRest b.rpdu stream result = some (taken, rpdu, ok)) :
    ∃ after : PduBuffer, b.readRest stream result = some (taken, after, ok) ∧ after.rpdu = rpdu := by
  obtain ⟨-, count⟩ := inBounds.request_fits busy
  cases result with
  | again =>
      cases ran
      exact ⟨b, rfl, rfl⟩
  | failed =>
      cases ran
      exact ⟨PduBuffer.empty, rfl, rfl⟩
  | got n =>
      obtain ⟨possible, same⟩ := Option.ite_none_left_eq_some.mp ran
      cases same
      refine ⟨_, if_neg ?_, rfl⟩
      omega

theorem PduBuffer.begin_eq {b : PduBuffer} {stream : List UInt8} {second : ReadResult}
    {count taken : Nat} {next rpdu : Charbuf} {ok : Bool} (idle : b.rpdu = Charbuf.empty)
    (word : readLength b.rpdu stream (.got sizeofRpcSz) = some (count, some next))
    (ran : Rpc.readRest next (stream.drop count) second = some (taken, rpdu, ok)) :
    ∃ after accesses, b.begin stream second = some (.returned (count + taken) after ok accesses) ∧
      after.rpdu = rpdu := by
  unfold readLength at word
  dsimp only at word
  split at word
  · cases word
  · rw [if_neg (Nat.lt_irrefl _)] at word
    split at word
    · cases word
    · rename_i small
      obtain ⟨proper, same⟩ := Option.ite_none_left_eq_some.mp word
      cases same
      have lower : (sizeofRpcSz : Int) ≤ announcedLength stream :=
        Int.not_lt.mp (fun short => proper (.inl short))
      obtain ⟨capacity, -, room, allocated⟩ :=
        PduBuffer.begin_alloc second idle lower (Int.not_lt.mp small)
      have busy : (PduBuffer.allocated stream capacity).rpdu.sz ≠ 0 := by
        change (4 : Int) ≤ announcedLength stream at lower
        change announcedLength stream ≠ 0
        omega
      obtain ⟨after, read, same⟩ := room.readRest_eq busy ran
      refine ⟨after, [{ offset := 0, count := sizeofRpcSz, capacity := capacity },
        (PduBuffer.allocated stream capacity).request], ?_, same⟩
      rw [allocated, read]
      rfl

/-- In bounds, `readpdu` is that of the reading half. -/
theorem PduBuffer.InBounds.readpdu_eq {b : PduBuffer} {stream : List UInt8}
    {first second : ReadResult} {taken : Nat} {rpdu : Charbuf} {ok : Bool} (inBounds : b.InBounds)
    (ran : Rpc.readpdu b.rpdu stream first second = some (taken, rpdu, ok)) :
    ∃ after accesses, b.readpdu stream first second = some (.returned taken after ok accesses) ∧
      after.rpdu = rpdu := by
  unfold Rpc.readpdu at ran
  unfold PduBuffer.readpdu
  by_cases idle : b.rpdu.sz = 0
  · rw [if_pos idle] at ran ⊢
    have empty := inBounds.idle idle
    obtain ⟨⟨count, next⟩, word, rest⟩ := Option.bind_eq_some_iff.mp ran
    have large : ∀ n, (maxPdu : Int) < announcedLength stream → n = sizeofRpcSz → ∃ after accesses,
        b.begin stream second = some (.returned n after false accesses) ∧ after.rpdu = b.rpdu := by
      rintro n tooBig rfl
      exact ⟨b, [], PduBuffer.begin_large tooBig, rfl⟩
    cases first with
    | again => cases word
    | failed =>
        cases word
        cases rest
        exact ⟨b, [], rfl, rfl⟩
    | got n =>
        have word' := word
        unfold readLength at word'
        dsimp only at word' ⊢
        split at word'
        · cases word'
        · rename_i possible
          rw [if_neg possible]
          split at word'
          · cases word'
            cases rest
            exact ⟨b, [], if_pos ‹_›, rfl⟩
          · rename_i whole
            rw [if_neg whole]
            have exactly : n = sizeofRpcSz := by omega
            split at word'
            · rename_i tooBig
              cases word'
              cases rest
              exact large _ tooBig exactly
            · obtain ⟨-, same⟩ := Option.ite_none_left_eq_some.mp word'
              cases same
              obtain ⟨⟨more, read, fine⟩, second', same⟩ := Option.map_eq_some_iff.mp rest
              cases same
              subst exactly
              exact PduBuffer.begin_eq empty word second'
  · rw [if_neg idle] at ran ⊢
    obtain ⟨after, read, same⟩ := inBounds.readRest_eq idle ran
    exact ⟨after, _, by rw [read]; rfl, same⟩

/-! ### Runs -/

theorem PduReader.Safe.start (stream : List UInt8) : (PduReader.start stream).Safe where
  fits := List.forall_mem_nil _
  inBounds := PduBuffer.empty_inBounds
  refuses := fun _sz announced => nomatch announced

theorem PduReader.announces_some {r : PduReader} {action : ReceiveAction} {sz : Int}
    (told : r.announces action = some sz) :
    ∃ second takes, action = .readCb (.got sizeofRpcSz) second takes ∧ r.dead = false ∧
      r.buffer.rpdu.unread = true ∧ r.buffer.rpdu.sz = 0 ∧ sz = announcedLength r.stream := by
  unfold PduReader.announces at told
  split at told
  · rename_i n second takes
    obtain ⟨⟨alive, unread, idle, rfl⟩, same⟩ := Option.ite_none_right_eq_some.mp told
    exact ⟨second, takes, rfl, alive, unread, idle, (Option.some.inj same).symm⟩
  · cases told

theorem PduReader.Safe.silent {r next : PduReader} {action : ReceiveAction} (safe : r.Safe)
    (taken : r.step action = some next) (silent : r.announces action = none) : next.Safe := by
  have refuses : ∀ sz, r.announces action = some sz → sz < sizeofRpcSz ∨ (maxPdu : Int) < sz →
      next.dead = true ∧ next.aborted = false := by
    intro sz told
    rw [silent] at told
    cases told
  unfold PduReader.step at taken
  rw [Option.ite_none_left_eq_some] at taken
  obtain ⟨running, taken⟩ := taken
  cases action with
  | close =>
      cases taken
      exact ⟨List.forall_mem_nil _, safe.inBounds, refuses⟩
  | readCb first second takes =>
      dsimp only at taken
      split at taken
      · cases taken
        exact ⟨List.forall_mem_nil _, safe.inBounds, refuses⟩
      · rename_i alive
        split at taken
        · rename_i unread
          obtain ⟨result, ran, same⟩ := Option.map_eq_some_iff.mp taken
          have noWord : r.buffer.rpdu.sz = 0 → first ≠ .got sizeofRpcSz := by
            rintro idle rfl
            have told : r.announces (.readCb (.got sizeofRpcSz) second takes) =
                some (announcedLength r.stream) :=
              if_pos ⟨Bool.eq_false_of_not_eq_true alive, unread, idle, rfl⟩
            rw [silent] at told
            cases told
          rcases PduBuffer.readpdu_silent safe.inBounds noWord ran with
            rfl | ⟨count, after, ok, accesses, rfl, inBounds, fits⟩
          · cases same
            exact ⟨List.forall_mem_nil _, safe.inBounds, refuses⟩
          · cases same
            exact ⟨fits, inBounds.offer takes, refuses⟩
        · cases taken
          exact ⟨List.forall_mem_nil _, safe.inBounds.offer takes, refuses⟩

theorem PduReader.step_word {r next : PduReader} {second : ReadResult} {takes : Bool}
    (alive : r.dead = false) (unread : r.buffer.rpdu.unread = true) (idle : r.buffer.rpdu.sz = 0)
    (taken : r.step (.readCb (.got sizeofRpcSz) second takes) = some next) :
    next.announced = some (announcedLength r.stream) ∧
    ∃ result, r.buffer.begin r.stream second = some result ∧
      match result with
      | .aborted => next.aborted = true
      | .returned _ after ok accesses =>
          next.aborted = false ∧ next.dead = !ok ∧ next.buffer = after.offer takes ∧
            next.accesses = accesses := by
  have told : r.announces (.readCb (.got sizeofRpcSz) second takes) =
      some (announcedLength r.stream) := if_pos ⟨alive, unread, idle, rfl⟩
  unfold PduReader.step at taken
  rw [Option.ite_none_left_eq_some] at taken
  obtain ⟨running, taken⟩ := taken
  dsimp only at taken
  rw [told, alive, if_neg Bool.false_ne_true, if_pos unread] at taken
  obtain ⟨result, ran, same⟩ := Option.map_eq_some_iff.mp taken
  have begun := PduBuffer.readpdu_word idle ran
  cases result with
  | aborted =>
      cases same
      exact ⟨rfl, _, begun, rfl⟩
  | returned count after ok accesses =>
      cases same
      exact ⟨rfl, _, begun, Bool.eq_false_of_not_eq_true running, rfl, rfl, rfl⟩

theorem PduReader.Safe.step_iff {r next : PduReader} {action : ReceiveAction} (safe : r.Safe)
    (taken : r.step action = some next) :
    next.Safe ↔ r.Proper action := by
  unfold PduReader.Proper
  cases told : r.announces action with
  | none => exact ⟨fun _ sz same => (nomatch same), fun _ => safe.silent taken told⟩
  | some sz =>
      obtain ⟨second, takes, rfl, alive, unread, idle, rfl⟩ := PduReader.announces_some told
      have empty := safe.inBounds.idle idle
      obtain ⟨announced, result, begun, outcome⟩ := PduReader.step_word alive unread idle taken
      constructor
      · intro safeNext sz same
        cases same
        by_contra short
        have short := Int.not_le.mp short
        rcases PduBuffer.begin_short empty short begun with
          rfl | ⟨count, after, ok, accesses, rfl, access, member, outside⟩
        · have refused := safeNext.refuses _ announced (.inl short)
          rw [outcome] at refused
          cases refused.2
        · obtain ⟨-, -, -, stores⟩ := outcome
          rw [← stores] at member
          exact outside (safeNext.fits access member)
      · intro proper
        have lower := proper _ rfl
        by_cases large : (maxPdu : Int) < announcedLength r.stream
        · rw [PduBuffer.begin_large large] at begun
          cases begun
          obtain ⟨running, dead, buffer, stores⟩ := outcome
          refine ⟨?_, ?_, ?_⟩
          · rw [stores]
            exact List.forall_mem_nil _
          · rw [buffer]
            exact safe.inBounds.offer takes
          · exact fun _sz _told _improper => ⟨dead, running⟩
        · obtain ⟨count, after, ok, accesses, rfl, inBounds, fits⟩ :=
            PduBuffer.begin_proper empty lower (Int.not_lt.mp large) begun
          obtain ⟨running, dead, buffer, stores⟩ := outcome
          refine ⟨?_, ?_, ?_⟩
          · rw [stores]
            exact fits
          · rw [buffer]
            exact inBounds.offer takes
          · intro sz same improper
            rw [announced] at same
            cases same
            omega

/-- The reading half that the reader is a closer view of. -/
def PduReader.receiver (r : PduReader) : Receiver := { dead := r.dead, rpdu := r.buffer.rpdu }

theorem PduBuffer.offer_receiver (b : PduBuffer) (dead takes : Bool) :
    ({ dead := dead, rpdu := (b.offer takes).rpdu } : Receiver) =
      (({ dead := dead, rpdu := b.rpdu } : Receiver).offer takes).1 := by
  unfold PduBuffer.offer Receiver.offer
  dsimp only
  cases filled : b.rpdu.buf with
  | none => rfl
  | some buf =>
      dsimp only
      by_cases whole : b.rpdu.sz = b.rpdu.solong ∧ takes = true
      · rw [if_pos whole, if_pos ⟨rfl, whole⟩]
        rfl
      · rw [if_neg whole, if_neg (fun all => whole all.2)]

/-- While it stays in its buffer, the reader does what the reading half does. -/
theorem PduReader.Safe.receiver {r : PduReader} {action : ReceiveAction} {taken : Nat}
    {after : Receiver} {pdu : Option (List UInt8)} (safe : r.Safe) (running : r.aborted = false)
    (ran : r.receiver.step r.stream action = some (taken, after, pdu)) :
    ∃ next, r.step action = some next ∧ next.aborted = false ∧ next.receiver = after ∧
      next.stream = r.stream.drop taken := by
  unfold PduReader.step
  rw [running, if_neg Bool.false_ne_true]
  cases action with
  | close =>
      cases ran
      exact ⟨_, rfl, rfl, rfl, rfl⟩
  | readCb first second takes =>
      unfold Receiver.step at ran
      dsimp only at ran ⊢
      by_cases dead : r.dead = true
      · rw [if_pos dead]
        change (if r.dead = true then _ else _) = _ at ran
        rw [if_pos dead] at ran
        cases ran
        exact ⟨_, rfl, rfl, rfl, rfl⟩
      · rw [if_neg dead]
        change (if r.dead = true then _ else _) = _ at ran
        rw [if_neg dead] at ran
        obtain ⟨⟨count, rpdu, succ⟩, read, same⟩ := Option.map_eq_some_iff.mp ran
        have unread : r.buffer.rpdu.unread = true ↔
            (r.receiver.rpdu.buf.isNone = true ∨ r.receiver.rpdu.solong < r.receiver.rpdu.sz) := by
          unfold Charbuf.unread
          rw [Bool.or_eq_true, decide_eq_true_eq]
          rfl
        by_cases whole : r.buffer.rpdu.unread = true
        · rw [if_pos whole]
          rw [if_pos (unread.mp whole)] at read
          obtain ⟨b, accesses, called, rfl⟩ := safe.inBounds.readpdu_eq read
          have offered : (({ dead := !succ, rpdu := b.rpdu } : Receiver).offer takes).1 = after :=
            congrArg (fun result => result.2.1) same
          have stream : count = taken := congrArg Prod.fst same
          rw [← offered, ← stream]
          exact ⟨_, congrArg (Option.map _) called, rfl, b.offer_receiver (!succ) takes, rfl⟩
        · rw [if_neg whole]
          rw [if_neg (fun needs => whole (unread.mpr needs))] at read
          cases read
          have alive : r.dead = false := Bool.eq_false_of_not_eq_true dead
          have offered :
              (({ dead := false, rpdu := r.buffer.rpdu } : Receiver).offer takes).1 = after :=
            congrArg (fun result => result.2.1) same
          have stream : 0 = taken := congrArg Prod.fst same
          rw [← offered, ← stream]
          refine ⟨_, rfl, rfl, ?_, rfl⟩
          change ({ dead := r.dead, rpdu := (r.buffer.offer takes).rpdu } : Receiver) = _
          rw [alive]
          exact r.buffer.offer_receiver false takes

/-- Over every stream, and however it is cut into reads, the reader stays in its buffer,
where it does what the reading half does (`PduReader.Safe.receiver`), if and only if it
takes no length word below four from the stream. -/
theorem readpdu_in_buffer {stream : List UInt8} {actions : List ReceiveAction} {r : PduReader}
    (ran : run PduReader.step (.start stream) actions = some r) :
    Throughout PduReader.step PduReader.Safe (.start stream) actions ↔
      Guarded PduReader.step PduReader.Proper (.start stream) actions :=
  throughout_iff_guarded (fun _state _action _next (holds : True) _taken => holds)
    (fun _state _action _next _holds safe taken => safe.step_iff taken) trivial (.start stream) ran

private def partsOfFive : List ReceiveAction :=
  [.readCb (.got 4) .again true, .readCb .again .again true, .readCb .again (.got 1) false,
    .readCb .again .again true]

theorem readpdu_in_buffer_five :
    Throughout PduReader.step PduReader.Safe (.start [0, 0, 0, 5, 7]) partsOfFive := by
  have ran : (run PduReader.step (.start [0, 0, 0, 5, 7]) partsOfFive).isSome := by decide
  obtain ⟨r, ran⟩ := Option.isSome_iff_exists.mp ran
  exact (readpdu_in_buffer ran).mpr (by decide)

/-- A length of -1 gets a block of three bytes, and four are stored in it. -/
theorem readpdu_overflows : ∃ r,
    run PduReader.step (.start [255, 255, 255, 255]) [.readCb (.got 4) .failed false] = some r ∧
    r.announced = some (-1) ∧
    ({ offset := 0, count := 4, capacity := 3 } : Access) ∈ r.accesses ∧ ¬r.Safe := by
  refine ⟨_, rfl, by decide, by decide, ?_⟩
  intro safe
  have fits := safe.fits { offset := 0, count := 4, capacity := 3 } (by decide)
  exact absurd fits (by decide)

end CseLab.Rpc
