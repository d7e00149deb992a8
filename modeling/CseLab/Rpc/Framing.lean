import CseLab.Rpc.Connection

/-! What is accepted is a prefix of what was sent. The stream is always a prefix
of the frames of the buffers in the order in which they obtained `wpdu_`, and
the reader stands at a frame boundary or inside the next frame. -/

namespace CseLab.Rpc

open BigEndian Transition

/-- A buffer as it travels: behind its length word. -/
def frame (b : List UInt8) : List UInt8 := withLength b.length b

theorem withLength_withLength (sz : Int) (buf : List UInt8) :
    withLength sz (withLength sz buf) = withLength sz buf := by
  unfold withLength
  rw [List.drop_left' (show (bytes32 _).length = sizeofRpcSz from rfl)]

theorem frame_length {b : List UInt8} (room : rpcHeaderSz ≤ b.length) :
    (frame b).length = b.length := by
  change 24 ≤ b.length at room
  unfold frame withLength sizeofRpcSz
  rw [List.length_append, bytes32_length, List.length_drop]
  omega

theorem frame_word {b : List UInt8} (small : b.length ≤ intMax) :
    (word32 ((frame b).take sizeofRpcSz)).toInt32.toInt = b.length := by
  have first : (frame b).take sizeofRpcSz = bytes32 (Int32.ofInt b.length).toUInt32 ++ [] := by
    rw [List.append_nil]
    exact List.take_left' rfl
  rw [first, word32_bytes32]
  change (Int32.ofInt b.length).toInt = b.length
  unfold intMax at small
  apply Int32.toInt_ofInt_of_le
  · omega
  · omega

/-! ### The writing end -/

structure Busy (wpdu : Charbuf) (buf : List UInt8) (finished : List (List UInt8))
    (b written : List UInt8) : Prop where
  buf_eq : wpdu.buf = some buf
  sz_eq : wpdu.sz = b.length
  lower : 0 ≤ wpdu.solong
  upper : wpdu.solong ≤ wpdu.sz
  filled : withLength wpdu.sz buf = frame b
  started : wpdu.solong ≠ 0 → buf = frame b
  written_eq : written = (finished.map frame).flatten ++ (frame b).take wpdu.solong.toNat

theorem Busy.start (finished : List (List UInt8)) (b : List UInt8) :
    Busy { buf := some b, sz := b.length, solong := 0 } b finished b
      (finished.map frame).flatten := by
  refine ⟨rfl, rfl, Int.le_refl 0, Int.natCast_nonneg _, rfl, fun started => absurd rfl started, ?_⟩
  exact (List.append_nil _).symm

theorem Busy.prefix_frames {wpdu : Charbuf} {buf b written : List UInt8}
    {finished : List (List UInt8)} (busy : Busy wpdu buf finished b written) :
    written <+: ((finished ++ [b]).map frame).flatten := by
  rw [busy.written_eq, List.map_append, List.flatten_append]
  apply (List.prefix_append_right_inj _).mpr
  rw [List.map_singleton, List.flatten_singleton]
  exact List.take_prefix _ _

theorem Busy.writepdu {wpdu next : Charbuf} {buf b written bytes : List UInt8}
    {finished : List (List UInt8)} {result : WriteResult} {ok : Bool}
    (busy : Busy wpdu buf finished b written)
    (ran : writepdu wpdu result = some (bytes, next, ok)) :
    (ok = true ∧ ∃ nextBuf, Busy next nextBuf finished b (written ++ bytes)) ∨
      (ok = false ∧ bytes = []) := by
  unfold Rpc.writepdu at ran
  rw [busy.buf_eq] at ran
  dsimp only at ran
  by_cases done : wpdu.solong = wpdu.sz
  · rw [if_pos done] at ran
    cases ran
    refine Or.inl ⟨rfl, buf, ?_⟩
    rw [List.append_nil]
    exact busy
  · rw [if_neg done] at ran
    have whole : (if wpdu.solong = 0 then withLength wpdu.sz buf else buf) = frame b := by
      split
      · exact busy.filled
      · rename_i started
        exact busy.started started
    have refilled : withLength wpdu.sz (frame b) = frame b := by
      rw [busy.sz_eq]
      exact withLength_withLength _ b
    rw [whole] at ran
    cases result with
    | wrote n =>
        dsimp only at ran
        split at ran
        · rename_i inside
          cases ran
          have lower := busy.lower
          refine Or.inl ⟨rfl, frame b, rfl, busy.sz_eq, ?_, ?_, refilled, fun _started => rfl, ?_⟩
          · change 0 ≤ wpdu.solong + n
            omega
          · change wpdu.solong + n ≤ wpdu.sz
            omega
          · have position : (wpdu.solong + (n : Int)).toNat = wpdu.solong.toNat + n := by
              omega
            change written ++ _ = _ ++ (frame b).take (wpdu.solong + (n : Int)).toNat
            rw [busy.written_eq, List.append_assoc, position, List.take_add]
        · cases ran
    | again =>
        cases ran
        refine Or.inl ⟨rfl, frame b, rfl, busy.sz_eq, busy.lower, busy.upper, refilled,
          fun _started => rfl, ?_⟩
        rw [List.append_nil]
        exact busy.written_eq
    | failed =>
        cases ran
        exact Or.inr ⟨rfl, rfl⟩

/-- While the writing end is alive it stands at the end of a frame or inside the
last one; once it is dead it writes no more. -/
structure SenderSound (s : Sender) (sent : List (List UInt8)) (written : List UInt8) : Prop where
  frames : written <+: (sent.map frame).flatten
  idle : s.dead = false → s.wpdu.buf = none →
    s.wpdu = Charbuf.empty ∧ written = (sent.map frame).flatten
  busy : s.dead = false → ∀ buf, s.wpdu.buf = some buf →
    ∃ finished b, sent = finished ++ [b] ∧ Busy s.wpdu buf finished b written

private theorem SenderSound.ofDead {s : Sender} {sent : List (List UInt8)} {written : List UInt8}
    (frames : written <+: (sent.map frame).flatten) (isDead : s.dead = true) :
    SenderSound s sent written :=
  ⟨frames, fun alive => Bool.noConfusion (isDead.symm.trans alive),
    fun alive => Bool.noConfusion (isDead.symm.trans alive)⟩

private theorem SenderSound.ofBusy {s : Sender} {sent finished : List (List UInt8)}
    {b buf written : List UInt8} (split : sent = finished ++ [b])
    (busy : Busy s.wpdu buf finished b written) : SenderSound s sent written := by
  refine ⟨?_, ?_, ?_⟩
  · rw [split]
    exact busy.prefix_frames
  · intro _alive free
    rw [busy.buf_eq] at free
    cases free
  · intro _alive other here
    cases busy.buf_eq.symm.trans here
    exact ⟨finished, b, split, busy⟩

private theorem SenderSound.release {s : Sender} {sent : List (List UInt8)}
    {written : List UInt8} (sound : SenderSound s sent written)
    (sizes : ∀ b ∈ sent, rpcHeaderSz ≤ b.length) (held : s.wpdu.buf.isSome)
    (complete : s.complete = true) : SenderSound s.release sent written := by
  cases isDead : s.dead with
  | true => exact SenderSound.ofDead sound.frames isDead
  | false =>
      obtain ⟨buf, here⟩ := Option.isSome_iff_exists.mp held
      obtain ⟨finished, b, split, busy⟩ := sound.busy isDead buf here
      have lower := busy.lower
      have upper := busy.upper
      have size := busy.sz_eq
      have ended : s.wpdu.solong < 0 ∨ s.wpdu.sz ≤ s.wpdu.solong := by
        unfold Sender.complete at complete
        rw [isDead, Bool.false_or, Bool.or_eq_true, decide_eq_true_eq, decide_eq_true_eq] at complete
        exact complete
      have whole : written = (sent.map frame).flatten := by
        have member : b ∈ sent := by
          rw [split]
          exact List.mem_append_right _ List.mem_cons_self
        have length := frame_length (sizes b member)
        rw [busy.written_eq, split, List.map_append, List.flatten_append, List.map_singleton,
          List.flatten_singleton, List.take_of_length_le (by omega)]
      exact ⟨sound.frames, fun _alive _free => ⟨rfl, whole⟩, fun _alive buf held => by cases held⟩

private theorem SenderSound.claim {s next : Sender} {sent : List (List UInt8)}
    {written b bytes : List UInt8} {result : WriteResult} (sound : SenderSound s sent written)
    (alive : s.dead = false) (sizes : ∀ other ∈ sent ++ [b], rpcHeaderSz ≤ other.length)
    (ran : s.claim b result = some (next, bytes)) :
    SenderSound next (sent ++ [b]) (written ++ bytes) := by
  unfold Sender.claim at ran
  rw [alive, if_neg Bool.false_ne_true] at ran
  split at ran
  · cases ran
  · rename_i notHeld
    have free : s.wpdu.buf = none := Option.not_isSome_iff_eq_none.mp notHeld
    have boundary := (sound.idle alive free).2
    obtain ⟨⟨part, wpdu, ok⟩, wrote, final⟩ := Option.map_eq_some_iff.mp ran
    cases final
    have start := Busy.start sent b
    rw [← boundary] at start
    rcases start.writepdu wrote with ⟨rfl, nextBuf, further⟩ | ⟨rfl, rfl⟩
    · have busy : SenderSound { s with wpdu := wpdu, dead := !true } (sent ++ [b])
          (written ++ _) := SenderSound.ofBusy rfl further
      rw [Bool.true_and]
      split
      · rename_i complete
        exact busy.release sizes (by rw [further.buf_eq]; rfl) complete
      · exact busy
    · rw [List.append_nil]
      apply SenderSound.ofDead
      · rw [List.map_append, List.flatten_append, ← boundary]
        exact List.prefix_append _ _
      · rfl

theorem SenderSound.step {s next : Sender} {sent : List (List UInt8)} {written bytes : List UInt8}
    {action : SendAction} (sound : SenderSound s sent written)
    (sizes : ∀ b ∈ sent ++ (s.obtains action).toList, rpcHeaderSz ≤ b.length)
    (ran : s.step action = some (next, bytes)) :
    SenderSound next (sent ++ (s.obtains action).toList) (written ++ bytes) := by
  cases action with
  | wait =>
      dsimp only [Sender.step] at ran
      split at ran
      · cases ran
        have nothing : (s.obtains .wait).toList = [] := rfl
        rw [List.append_nil, nothing, List.append_nil]
        exact ⟨sound.frames, sound.idle, sound.busy⟩
      · cases ran
  | send waited b result =>
      dsimp only [Sender.step] at ran
      split at ran
      · cases ran
      · have resumed : SenderSound (s.resume waited) sent written :=
          ⟨sound.frames, sound.idle, sound.busy⟩
        cases isDead : s.dead with
        | true =>
            have nobody : s.obtains (.send waited b result) = none := if_pos isDead
            rw [nobody]
            have same : (s.resume waited).claim b result = some (s.resume waited, []) :=
              if_pos isDead
            cases same.symm.trans ran
            exact SenderSound.ofDead (by simpa using sound.frames) isDead
        | false =>
            have somebody : s.obtains (.send waited b result) = some b := by
              unfold Sender.obtains
              rw [isDead]
              rfl
            rw [somebody] at sizes ⊢
            exact resumed.claim isDead sizes ran
  | writeCb result =>
      have nothingNew : (s.obtains (.writeCb result)).toList = [] := rfl
      rw [nothingNew, List.append_nil]
      dsimp only [Sender.step] at ran
      cases isDead : s.dead with
      | true =>
          rw [isDead] at ran
          cases ran
      | false =>
          rw [isDead, if_neg Bool.false_ne_true] at ran
          split at ran
          · cases ran
            rw [List.append_nil]
            exact sound
          · rename_i nonzero
            obtain ⟨⟨part, wpdu, ok⟩, wrote, result⟩ := Option.map_eq_some_iff.mp ran
            cases result
            cases held : s.wpdu.buf with
            | none =>
                rw [(sound.idle isDead held).1] at nonzero
                exact absurd rfl nonzero
            | some buf =>
                obtain ⟨finished, other, split, busy⟩ := sound.busy isDead buf held
                rcases busy.writepdu wrote with ⟨rfl, nextBuf, further⟩ | ⟨rfl, rfl⟩
                · exact SenderSound.ofBusy split further
                · rw [List.append_nil]
                  exact SenderSound.ofDead sound.frames rfl
  | finish =>
      have nothingNew : (s.obtains .finish).toList = [] := rfl
      rw [nothingNew, List.append_nil] at sizes ⊢
      dsimp only [Sender.step] at ran
      split at ran
      · rename_i held
        cases ran
        rw [List.append_nil]
        exact sound.release sizes held.1 held.2
      · cases ran
  | close =>
      cases ran
      have nothingNew : (s.obtains .close).toList = [] := rfl
      rw [nothingNew, List.append_nil, List.append_nil]
      exact SenderSound.ofDead sound.frames rfl

/-! ### The reading end -/

structure Partial (rpdu : Charbuf) (bytes f : List UInt8) : Prop where
  buf_eq : rpdu.buf = some bytes
  sz_eq : rpdu.sz = f.length
  solong_eq : rpdu.solong = bytes.length
  begun : sizeofRpcSz ≤ bytes.length
  front : bytes <+: f

/-- Where a live reading end stands: at a boundary, or inside the frame after
those accepted. -/
inductive Standing (rpdu : Charbuf) (accepted frames : List (List UInt8)) (seen : List UInt8) :
    Prop where
  | boundary (empty : rpdu = Charbuf.empty) (seen_eq : seen = accepted.flatten)
  | inside (bytes f : List UInt8) (next : frames[accepted.length]? = some f)
      (begun : Partial rpdu bytes f) (seen_eq : seen = accepted.flatten ++ bytes)

/-- The frames after those accepted start with what is unread and in the buffer. -/
theorem remaining_prefix {accepted frames : List (List UInt8)} {bytes stream : List UInt8}
    {f : List UInt8} (before : accepted <+: frames) (next : frames[accepted.length]? = some f)
    (whole : accepted.flatten ++ bytes ++ stream <+: frames.flatten) :
    ∃ rest, bytes ++ stream <+: f ++ rest := by
  obtain ⟨later, rfl⟩ := before
  rw [List.getElem?_append_right (Nat.le_refl _), Nat.sub_self] at next
  cases later with
  | nil => cases next
  | cons first others =>
      cases next
      rw [List.flatten_append, List.append_assoc] at whole
      exact ⟨others.flatten, (List.prefix_append_right_inj _).mp whole⟩

theorem exists_next {accepted frames : List (List UInt8)} {stream : List UInt8}
    (before : accepted <+: frames) (whole : accepted.flatten ++ stream <+: frames.flatten)
    (any : 0 < stream.length) : ∃ f ∈ frames, frames[accepted.length]? = some f := by
  obtain ⟨later, rfl⟩ := before
  rw [List.flatten_append] at whole
  have start := (List.prefix_append_right_inj _).mp whole
  cases later with
  | nil =>
      rw [List.prefix_nil.mp start] at any
      exact absurd any (Nat.lt_irrefl 0)
  | cons first others =>
      refine ⟨first, List.mem_append_right _ List.mem_cons_self, ?_⟩
      rw [List.getElem?_append_right (Nat.le_refl _), Nat.sub_self]
      rfl

theorem Partial.readRest {rpdu next : Charbuf} {bytes f rest stream : List UInt8}
    {result : ReadResult} {taken : Nat} {ok : Bool} (begun : Partial rpdu bytes f)
    (ahead : bytes ++ stream <+: f ++ rest)
    (ran : readRest rpdu stream result = some (taken, next, ok)) :
    taken ≤ stream.length ∧ ((ok = true ∧ Partial next (bytes ++ stream.take taken) f) ∨
      (ok = false ∧ next = Charbuf.empty)) := by
  cases result with
  | got n =>
      dsimp only [Rpc.readRest] at ran
      split at ran
      · cases ran
      · rename_i fits
        cases ran
        have size := begun.sz_eq
        have sofar := begun.solong_eq
        have length : (stream.take taken).length = taken := List.length_take_of_le (by omega)
        refine ⟨by omega, Or.inl ⟨rfl, ?_, size, ?_, ?_, ?_⟩⟩
        · change rpdu.buf.map _ = _
          rw [begun.buf_eq]
          rfl
        · change rpdu.solong + (taken : Int) = _
          rw [List.length_append, length, sofar]
          omega
        · have begunLength := begun.begun
          rw [List.length_append]
          omega
        · have shorter : bytes ++ stream.take taken <+: f ++ rest :=
            ((List.prefix_append_right_inj bytes).mpr (List.take_prefix taken stream)).trans ahead
          apply List.prefix_of_prefix_length_le shorter (List.prefix_append f rest)
          rw [List.length_append, length]
          omega
  | again =>
      cases ran
      refine ⟨Nat.zero_le _, Or.inl ⟨rfl, ?_⟩⟩
      rw [List.take_zero, List.append_nil]
      exact begun
  | failed =>
      cases ran
      exact ⟨Nat.zero_le _, Or.inr ⟨rfl, rfl⟩⟩

theorem readLength_spec {rpdu : Charbuf} {stream f rest : List UInt8} {result : ReadResult}
    {taken : Nat} {next : Option Charbuf} (ahead : stream <+: f ++ rest)
    (room : rpcHeaderSz ≤ f.length)
    (word : (word32 (f.take sizeofRpcSz)).toInt32.toInt = f.length)
    (ran : readLength rpdu stream result = some (taken, next)) :
    taken ≤ stream.length ∧ ∀ begun, next = some begun → Partial begun (stream.take taken) f := by
  cases result with
  | again => cases ran
  | failed =>
      cases ran
      exact ⟨Nat.zero_le _, fun begun contra => by cases contra⟩
  | got n =>
      dsimp only [readLength] at ran
      split at ran
      · cases ran
      · rename_i fits
        have available : n ≤ stream.length := by omega
        split at ran
        · cases ran
          exact ⟨available, fun begun contra => by cases contra⟩
        · rename_i whole
          have four : n = sizeofRpcSz := by omega
          split at ran
          · cases ran
            exact ⟨available, fun begun contra => by cases contra⟩
          · split at ran
            · cases ran
            · cases ran
              refine ⟨available, ?_⟩
              rintro begun ⟨⟩
              change 24 ≤ f.length at room
              have front : stream.take sizeofRpcSz <+: f := by
                apply List.prefix_of_prefix_length_le
                  ((List.take_prefix _ stream).trans ahead) (List.prefix_append f rest)
                rw [List.length_take]
                change min 4 _ ≤ _
                omega
              have length : (stream.take sizeofRpcSz).length = sizeofRpcSz :=
                List.length_take_of_le (by omega)
              have same : stream.take sizeofRpcSz = f.take sizeofRpcSz := by
                rw [List.prefix_iff_eq_take.mp front, length]
              rw [four]
              refine ⟨rfl, ?_, ?_, Nat.le_of_eq length.symm, front⟩
              · rw [← word, ← same]
              · rw [length]

def Framed (frames : List (List UInt8)) : Prop :=
  ∀ f ∈ frames, ∃ b, f = frame b ∧ rpcHeaderSz ≤ b.length ∧ b.length ≤ intMax

/-- `readpdu` takes bytes that are there, and stands in the next frame after them
unless it fails, when it holds no buffer. -/
private theorem readpdu_spec {rpdu next : Charbuf} {accepted frames : List (List UInt8)}
    {seen stream : List UInt8} {first second : ReadResult} {taken : Nat} {ok : Bool}
    (framed : Framed frames) (before : accepted <+: frames)
    (standing : Standing rpdu accepted frames seen) (whole : seen ++ stream <+: frames.flatten)
    (ran : readpdu rpdu stream first second = some (taken, next, ok)) :
    taken ≤ stream.length ∧
      ((ok = true ∧ Standing next accepted frames (seen ++ stream.take taken)) ∨
        (ok = false ∧ next.buf = none)) := by
  unfold readpdu at ran
  cases standing with
  | boundary empty seen_eq =>
      have emptySize : Charbuf.empty.sz = 0 := rfl
      rw [empty, if_pos emptySize] at ran
      obtain ⟨⟨word, begun⟩, length, rest⟩ := Option.bind_eq_some_iff.mp ran
      rw [seen_eq] at whole
      cases begun with
      | none =>
          cases rest
          refine ⟨?_, Or.inr ⟨rfl, rfl⟩⟩
          cases first with
          | again => cases length
          | failed =>
              cases length
              exact Nat.zero_le _
          | got n =>
              dsimp only [readLength] at length
              split at length
              · cases length
              · rename_i fits
                split at length
                · cases length
                  omega
                · split at length
                  · cases length
                    omega
                  · split at length
                    · cases length
                    · cases length
      | some begun =>
          obtain ⟨⟨more, final, fine⟩, read, result⟩ := Option.map_eq_some_iff.mp rest
          have any : 0 < stream.length := by
            cases first with
            | again => cases length
            | failed => cases length
            | got n =>
                dsimp only [readLength] at length
                split at length
                · cases length
                · rename_i fits
                  omega
          obtain ⟨f, member, here⟩ := exists_next before whole any
          obtain ⟨b, rfl, room, small⟩ := framed f member
          rw [← List.append_nil accepted.flatten] at whole
          obtain ⟨rest, ahead⟩ := remaining_prefix before here whole
          rw [List.nil_append] at ahead
          have frameSize := frame_length room
          obtain ⟨inside, partly⟩ := readLength_spec ahead (by rw [frameSize]; exact room)
            (by rw [frameSize]; exact frame_word small) length
          have inFrame := partly begun rfl
          rw [← List.take_append_drop word stream] at ahead
          have further := inFrame.readRest ahead read
          cases result
          obtain ⟨insideRest, outcome⟩ := further
          rw [List.length_drop] at insideRest
          refine ⟨by omega, ?_⟩
          rcases outcome with ⟨fine, inFrameNow⟩ | ⟨failed, cleared⟩
          · refine Or.inl ⟨fine, .inside _ _ here inFrameNow ?_⟩
            rw [seen_eq, List.take_add]
          · exact Or.inr ⟨failed, by rw [cleared]; rfl⟩
  | inside bytes f here begun seen_eq =>
      have size := begun.sz_eq
      have start := begun.begun
      have front := begun.front.length_le
      rw [if_neg (by unfold sizeofRpcSz at start; omega)] at ran
      rw [seen_eq] at whole
      obtain ⟨rest, ahead⟩ := remaining_prefix before here whole
      obtain ⟨inside, outcome⟩ := begun.readRest ahead ran
      refine ⟨inside, ?_⟩
      rcases outcome with ⟨fine, inFrame⟩ | ⟨failed, cleared⟩
      · refine Or.inl ⟨fine, .inside _ _ here inFrame ?_⟩
        rw [seen_eq, List.append_assoc]
      · exact Or.inr ⟨failed, by rw [cleared]; rfl⟩

structure ReceiverSound (r : Receiver) (accepted frames : List (List UInt8))
    (written : List UInt8) (taken : Nat) : Prop where
  inside : taken ≤ written.length
  before : accepted <+: frames
  standing : r.dead = false → Standing r.rpdu accepted frames (written.take taken)

private theorem Standing.offer (r : Receiver) {accepted frames : List (List UInt8)}
    {seen : List UInt8} (takes : Bool) (before : accepted <+: frames)
    (standing : Standing r.rpdu accepted frames seen) :
    accepted ++ (r.offer takes).2.toList <+: frames ∧
      Standing (r.offer takes).1.rpdu (accepted ++ (r.offer takes).2.toList) frames seen := by
  have refused : r.offer takes = (r, none) →
      accepted ++ (r.offer takes).2.toList <+: frames ∧
        Standing (r.offer takes).1.rpdu (accepted ++ (r.offer takes).2.toList) frames seen := by
    intro same
    rw [same, Option.toList_none, List.append_nil]
    exact ⟨before, standing⟩
  cases standing with
  | boundary empty seen_eq =>
      apply refused
      unfold Receiver.offer
      rw [empty]
      rfl
  | inside bytes f here begun seen_eq =>
      by_cases takesWhole : r.rpdu.sz = r.rpdu.solong ∧ takes = true
      · have size := begun.sz_eq
        have sofar := begun.solong_eq
        have whole : bytes = f := begun.front.eq_of_length (by omega)
        have taken : r.offer takes = ({ r with rpdu := Charbuf.empty }, some f) := by
          unfold Receiver.offer
          rw [begun.buf_eq, whole]
          exact if_pos takesWhole
        rw [taken, Option.toList_some]
        constructor
        · obtain ⟨later, rfl⟩ := before
          rw [List.getElem?_append_right (Nat.le_refl _), Nat.sub_self] at here
          cases later with
          | nil => cases here
          | cons first others =>
              cases here
              exact (List.prefix_append_right_inj _).mpr ⟨others, rfl⟩
        · apply Standing.boundary rfl
          rw [seen_eq, whole, List.flatten_append, List.flatten_singleton]
      · apply refused
        unfold Receiver.offer
        rw [begun.buf_eq]
        exact if_neg takesWhole

theorem ReceiverSound.step {r next : Receiver} {accepted frames : List (List UInt8)}
    {written : List UInt8} {taken more : Nat} {pdu : Option (List UInt8)} {action : ReceiveAction}
    (framed : Framed frames) (stream : written <+: frames.flatten)
    (sound : ReceiverSound r accepted frames written taken)
    (ran : r.step (written.drop taken) action = some (more, next, pdu)) :
    ReceiverSound next (accepted ++ pdu.toList) frames written (taken + more) := by
  cases action with
  | close =>
      cases ran
      rw [Option.toList_none, List.append_nil]
      exact ⟨sound.inside, sound.before, fun alive => by cases alive⟩
  | readCb first second takes =>
      dsimp only [Receiver.step] at ran
      cases isDead : r.dead with
      | true =>
          rw [if_pos isDead] at ran
          cases ran
          rw [Option.toList_none, List.append_nil]
          exact sound
      | false =>
          rw [isDead, if_neg Bool.false_ne_true] at ran
          have standing := sound.standing isDead
          obtain ⟨⟨took, rpdu, ok⟩, read, result⟩ := Option.map_eq_some_iff.mp ran
          have outcome : took ≤ (written.drop taken).length ∧
              ((ok = true ∧ Standing rpdu accepted frames
                  (written.take taken ++ (written.drop taken).take took)) ∨
                (ok = false ∧ rpdu.buf = none)) := by
            split at read
            · exact readpdu_spec framed sound.before standing
                (by rw [List.take_append_drop]; exact stream) read
            · cases read
              refine ⟨Nat.zero_le _, Or.inl ⟨rfl, ?_⟩⟩
              rw [List.take_zero, List.append_nil]
              exact standing
          obtain ⟨inside, outcome⟩ := outcome
          rw [List.length_drop] at inside
          have sofar := sound.inside
          rw [← List.take_add] at outcome
          rcases outcome with ⟨rfl, now⟩ | ⟨rfl, cleared⟩
          · have offered := Standing.offer { dead := !true, rpdu := rpdu } takes sound.before now
            obtain ⟨rfl, offer⟩ := Prod.mk.inj result
            rw [show ({ dead := !true, rpdu := rpdu : Receiver }).offer takes = (next, pdu) from
              offer] at offered
            exact ⟨by omega, offered.1, fun _alive => offered.2⟩
          · have refused : ({ dead := !false, rpdu := rpdu : Receiver }).offer takes =
                ({ dead := !false, rpdu := rpdu }, none) := by
              unfold Receiver.offer
              rw [cleared]
            rw [refused] at result
            cases result
            rw [Option.toList_none, List.append_nil]
            exact ⟨by omega, sound.before, fun alive => by cases alive⟩

/-! ### Both ends -/

structure LinkSound (l : Link) : Prop where
  sizes : ∀ b ∈ l.sent, rpcHeaderSz ≤ b.length ∧ b.length ≤ intMax
  sender : SenderSound l.sender l.sent l.written
  receiver : ReceiverSound l.receiver l.accepted (l.sent.map frame) l.written l.taken

theorem LinkSound.start : LinkSound Link.start := by
  refine ⟨fun b member => absurd member List.not_mem_nil, ⟨List.prefix_refl _, ?_, ?_⟩,
    ⟨Nat.le_refl _, List.prefix_refl _, fun _alive => .boundary rfl rfl⟩⟩
  · exact fun _alive _free => ⟨rfl, rfl⟩
  · intro _alive buf held
    cases held

private theorem ReceiverSound.extend {r : Receiver} {accepted frames : List (List UInt8)}
    {written : List UInt8} {taken : Nat} (sound : ReceiverSound r accepted frames written taken)
    (moreFrames : List (List UInt8)) (moreWritten : List UInt8) :
    ReceiverSound r accepted (frames ++ moreFrames) (written ++ moreWritten) taken := by
  have inside := sound.inside
  refine ⟨by rw [List.length_append]; omega,
    sound.before.trans (List.prefix_append _ _), fun alive => ?_⟩
  rw [List.take_append_of_le_length inside]
  cases sound.standing alive with
  | boundary empty seen_eq => exact .boundary empty seen_eq
  | inside bytes f here begun seen_eq =>
      refine .inside bytes f ?_ begun seen_eq
      rw [List.getElem?_append_left (List.getElem?_eq_some_iff.mp here).1]
      exact here

theorem LinkSound.step {l next : Link} {action : LinkAction} (sound : LinkSound l)
    (ran : l.step action = some next) : LinkSound next := by
  cases action with
  | send action =>
      dsimp only [Link.step] at ran
      split at ran
      · rename_i wellFormed
        obtain ⟨⟨sender, bytes⟩, stepped, rfl⟩ := Option.map_eq_some_iff.mp ran
        have sizes : ∀ b ∈ l.sent ++ (l.sender.obtains action).toList,
            rpcHeaderSz ≤ b.length ∧ b.length ≤ intMax := by
          intro b member
          rcases List.mem_append.mp member with old | new
          · exact sound.sizes b old
          · cases action with
            | send waited other result =>
                have isNew := Option.mem_toList.mp new
                unfold Sender.obtains at isNew
                dsimp only at isNew
                split at isNew
                · cases isNew
                · cases isNew
                  exact of_decide_eq_true wellFormed
            | wait => cases new
            | writeCb result => cases new
            | finish => cases new
            | close => cases new
        refine ⟨sizes, sound.sender.step (fun b member => (sizes b member).1) stepped, ?_⟩
        rw [List.map_append]
        exact sound.receiver.extend _ _
      · cases ran
  | receive action =>
      obtain ⟨⟨took, receiver, pdu⟩, stepped, rfl⟩ := Option.map_eq_some_iff.mp ran
      refine ⟨sound.sizes, sound.sender, sound.receiver.step ?_ sound.sender.frames stepped⟩
      intro f member
      obtain ⟨b, sentB, rfl⟩ := List.mem_map.mp member
      exact ⟨b, rfl, sound.sizes b sentB⟩

/-- However the writes, reads, refusals and failures fall, the PDUs accepted are
a prefix of the buffers sent, each byte for byte behind its length word. -/
theorem accepted_prefix_sent {l : Link} (reached : Reachable Link.step Link.start l) :
    l.accepted <+: l.sent.map frame :=
  (Reachable.invariant (fun _before _action _after sound ran => sound.step ran) LinkSound.start
    reached).receiver.before

/-- A PDU written in two parts and read in three, refused once and then accepted. -/
def splitRun : List LinkAction :=
  [.send (.send false (List.replicate 24 7) (.wrote 10)), .receive (.readCb (.got 4) (.got 6) true),
    .send (.writeCb (.wrote 14)), .send .finish, .receive (.readCb .again (.got 14) false),
    .receive (.readCb .again .again true)]

theorem accepted_prefix_sent_split :
    ∃ l, run Link.step Link.start splitRun = some l ∧ l.accepted.length = 1 ∧
      l.accepted <+: l.sent.map frame :=
  ⟨_, rfl, rfl, accepted_prefix_sent ⟨splitRun, rfl⟩⟩

end CseLab.Rpc
