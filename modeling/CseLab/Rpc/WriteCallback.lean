import CseLab.Rpc.Polled

/-! When `write_cb` is called for a connection that is dead. Two of the four
places that set `dead_` are in the loop's own callbacks, and take the descriptor
out of the poll set first; `closeconn` and `send` do it after they have released
`m_`, and an interest in writing may be left from an earlier `send`. -/

namespace CseLab.Rpc

open Transition

variable {Thread Handler : Type*} {kind : Callback} {fd : Nat}

/-! ### A callback that will not be called -/

def LoopPhase.entered : LoopPhase → Option (Callback × Nat)
  | .checked kind fd _ _ => some (kind, fd)
  | .running kind fd _ _ => some (kind, fd)
  | _ => none

theorem LoopPhase.Running.entered {loop : LoopPhase} (running : loop.Running kind fd) :
    loop.entered = some (kind, fd) := by
  cases loop with
  | running called ready readable writable => exact running
  | _ => cases running

/-- The loop does not call: it has no readiness of the descriptor, or it will
find no callback there. -/
structure PollMgr.Barred (kind : Callback) (fd : Nat) (p : PollMgr Thread Handler) : Prop where
  unwatched : p.aio.fds kind fd = false
  uncalled : ¬ p.loop.Holds kind fd ∨
    p.callbacks fd = none ∧ p.loop.entered ≠ some (kind, fd)

theorem PollMgr.Quiet.barred {p : PollMgr Thread Handler} (quiet : p.Quiet kind fd) :
    p.Barred kind fd :=
  ⟨quiet.unwatched, .inl quiet.unheld⟩

theorem PollMgr.Barred.not_running {p : PollMgr Thread Handler} (barred : p.Barred kind fd) :
    ¬ p.loop.Running kind fd := by
  intro running
  rcases barred.uncalled with unheld | ⟨-, unentered⟩
  · exact unheld running.holds
  · exact unentered running.entered

def PollMgr.Unset (fd : Nat) (p : PollMgr Thread Handler) : Prop :=
  ∀ ch, p.owed ≠ some (.set fd ch)

theorem PollMgr.entered_advance {p : PollMgr Thread Handler} (absent : p.callbacks fd = none)
    (readable writable : List Nat) : (p.advance readable writable).entered ≠ some (kind, fd) := by
  have checks (called : Callback) (first : Nat) (readable writable : List Nat) :
      (p.check called first readable writable).entered ≠ some (kind, fd) := by
    unfold PollMgr.check
    split
    next present =>
      intro same
      cases same
      rw [absent] at present
      cases present
    next => nofun
  cases readable with
  | cons first readable => exact checks .read first readable writable
  | nil =>
      cases writable with
      | cons first writable => exact checks .write first [] writable
      | nil => nofun

section Steps

variable [DecidableEq Thread] {p next : PollMgr Thread Handler} {action : MgrAction Thread Handler}

theorem PollMgr.Unset.step (unset : p.Unset fd) (others : ¬ action.AddsFd fd)
    (takes : p.Takes action next) : next.Unset fd := by
  cases takes with
  | addCallback other flag ch =>
      intro _ same
      cases same
      exact others ⟨flag, ch, rfl⟩
  | delCallback other flag =>
      intro _ same
      change (if _ then _ else _) = _ at same
      split at same <;> cases same
  | set | clear => nofun
  | _ => exact unset

theorem PollMgr.Barred.step (barred : p.Barred kind fd) (unset : p.Unset fd)
    (others : ¬ action.AddsFd fd) (takes : p.Takes action next) : next.Barred kind fd := by
  have unadded : ¬ action.Adds kind fd := fun adds => others adds.addsFd
  refine ⟨takes.unwatched unadded barred.unwatched, ?_⟩
  rcases barred.uncalled with unheld | ⟨absent, unentered⟩
  · exact .inl (takes.unheld (fun _ => barred.unwatched) unheld)
  · right
    cases takes with
    | addCallback | delCallback | blockRemoveFd => exact ⟨absent, unentered⟩
    | set other ch owed =>
        have different : fd ≠ other := by
          rintro rfl
          exact unset ch owed
        exact ⟨(Function.update_of_ne different _ _).trans absent, unentered⟩
    | clear other | removed _ other =>
        refine ⟨?_, unentered⟩
        change Function.update p.callbacks other none fd = none
        rw [Function.update_apply, absent, ite_self]
    | poll | copy | select | done => exact ⟨absent, nofun⟩
    | next readable writable => exact ⟨absent, p.entered_advance absent readable writable⟩
    | call called ready readable writable here =>
        rw [here] at unentered
        exact ⟨absent, unentered⟩

end Steps

variable [DecidableEq Thread] [DecidableEq Handler] {p next : PollMgr Thread Handler}

theorem PollMgr.add_takes {flag : PollFlag} {ch : Handler} (added : p.add fd flag ch = some next) :
    next.owed = none := by
  obtain ⟨middle, -, stored⟩ := Option.bind_eq_some_iff.mp added
  cases PollMgr.step_takes stored <;> rfl

theorem PollMgr.del_facts {flag : PollFlag} (deleted : p.del fd flag = some next) :
    next.owed = none ∧ next.loop = p.loop ∧ next.aio = (p.aio.unwatchFd fd flag).2 ∧
      ((p.aio.unwatchFd fd flag).1 = true → next.callbacks fd = none) := by
  obtain ⟨middle, unwatched, stored⟩ := Option.bind_eq_some_iff.mp deleted
  cases PollMgr.step_takes unwatched
  cases idle : (p.aio.unwatchFd fd flag).1 with
  | true =>
      rw [idle] at stored
      cases stored
      exact ⟨rfl, rfl, rfl, fun _ => Function.update_self _ _ _⟩
  | false =>
      rw [idle] at stored
      cases stored
      exact ⟨rfl, rfl, rfl, Bool.noConfusion⟩

theorem PollMgr.del_done_barred {middle : PollMgr Thread Handler}
    (deleted : p.del fd .rdwr = some middle) (returned : middle.Takes .done next) :
    next.Barred kind fd := by
  obtain ⟨-, -, cleared, idle⟩ := PollMgr.del_facts deleted
  cases returned
  refine ⟨?_, .inr ⟨idle ?_, nofun⟩⟩
  · change middle.aio.fds kind fd = false
    rw [cleared]
    exact p.aio.fds_unwatchFd_rdwr fd kind
  · have reads := p.aio.fds_unwatchFd_rdwr fd .read
    have writes := p.aio.fds_unwatchFd_rdwr fd .write
    change (!(p.aio.unwatchFd fd .rdwr).2.fds .read fd &&
      !(p.aio.unwatchFd fd .rdwr).2.fds .write fd) = true
    rw [reads, writes]
    rfl

/-! ### Who finds a connection dead -/

theorem writepdu_failed {wpdu after : Charbuf} {result : WriteResult} {bytes : List UInt8}
    (wrote : writepdu wpdu result = some (bytes, after, false)) :
    result = .failed ∧ wpdu.solong ≠ wpdu.sz := by
  unfold writepdu at wrote
  split at wrote
  next => cases wrote
  next buf _ =>
    split at wrote
    next => cases wrote
    next unfinished =>
      refine ⟨?_, unfinished⟩
      cases result with
      | failed => rfl
      | again => cases wrote
      | wrote n =>
          obtain ⟨-, same⟩ := Option.ite_none_right_eq_some.mp wrote
          cases same

theorem Sender.claim_dies {s next : Sender} {b bytes : List UInt8} {result : WriteResult}
    (alive : s.dead = false) (claimed : s.claim b result = some (next, bytes))
    (died : next.dead = true) : result = .failed ∧ b ≠ [] := by
  unfold Sender.claim at claimed
  rw [if_neg (by rw [alive]; exact Bool.false_ne_true)] at claimed
  obtain ⟨-, wrote⟩ := Option.ite_none_left_eq_some.mp claimed
  obtain ⟨⟨written, wpdu, ok⟩, wrote, same⟩ := Option.map_eq_some_iff.mp wrote
  cases ok with
  | true =>
      exfalso
      cases same
      change (if _ then _ else _ : Sender).dead = true at died
      split at died <;> cases died
  | false =>
      obtain ⟨failed, unfinished⟩ := writepdu_failed wrote
      refine ⟨failed, ?_⟩
      rintro rfl
      exact unfinished rfl

/-- The condition on a step: a thread that finds the connection alive and kills
it outside the loop does so without an interest in writing, old or current. -/
def Polled.Permits (p : Polled Thread Handler) : PolledAction Thread Handler → Prop
  | .close _ => p.sender.dead = false → p.mgr.Quiet .write p.fd
  | .send _ b .failed => p.sender.dead = false → b ≠ [] → p.mgr.Quiet .write p.fd
  | _ => True

instance Polled.permitsDecidable (p : Polled Thread Handler) :
    (action : PolledAction Thread Handler) → Decidable (p.Permits action)
  | .close _ => inferInstanceAs (Decidable (p.sender.dead = false → p.mgr.Quiet .write p.fd))
  | .send _ b .failed =>
      inferInstanceAs (Decidable (p.sender.dead = false → b ≠ [] → p.mgr.Quiet .write p.fd))
  | .send _ _ (.wrote _) | .send _ _ .again => inferInstanceAs (Decidable True)
  | .create | .poll _ | .wait _ | .finish _ | .remove _ | .removed _ =>
      inferInstanceAs (Decidable True)
  | .readCb _ _ _ _ | .writeCb _ => inferInstanceAs (Decidable True)

structure Polled.Safe (p : Polled Thread Handler) : Prop where
  unmade : p.made = false → p.sender.dead = false
  unset : p.mgr.Unset p.fd
  barred : p.sender.dead = true → p.mgr.Barred .write p.fd

omit [DecidableEq Thread] [DecidableEq Handler] in
theorem Polled.Safe.start (pipefd fd : Nat) (this : Handler) :
    (Polled.start Thread pipefd fd this).Safe :=
  ⟨fun _ => rfl, nofun, nofun⟩

section Callbacks

variable {conn after : Polled Thread Handler} {middle : PollMgr Thread Handler}

omit [DecidableEq Thread] [DecidableEq Handler] in
theorem not_addsFd_done : ¬ MgrAction.AddsFd fd (.done : MgrAction Thread Handler) := nofun

theorem Polled.drop_done {broken : Bool} (unset : conn.mgr.Unset conn.fd)
    (dropped : conn.drop broken = some middle) (returned : middle.Takes .done next) :
    next.Unset conn.fd ∧
      (broken = true ∨ conn.mgr.Barred kind conn.fd → next.Barred kind conn.fd) := by
  cases broken with
  | true =>
      have untold : middle.Unset conn.fd := by
        intro ch
        rw [(PollMgr.del_facts dropped).1]
        nofun
      exact ⟨untold.step not_addsFd_done returned, fun _ => PollMgr.del_done_barred dropped returned⟩
  | false =>
      cases dropped
      refine ⟨unset.step not_addsFd_done returned, ?_⟩
      rintro (impossible | barred)
      · cases impossible
      · exact barred.step unset not_addsFd_done returned

theorem Polled.Safe.readCb (safe : conn.Safe) {stream : List UInt8} {first second : ReadResult}
    {takes : Bool} (called : conn.readCb stream first second takes = some after)
    (made : conn.made = true) : after.Safe := by
  obtain ⟨⟨taken, receiver, pdu⟩, -, rest⟩ := Option.bind_eq_some_iff.mp called
  obtain ⟨middle, dropped, rest⟩ := Option.bind_eq_some_iff.mp rest
  obtain ⟨next, returned, rfl⟩ := Option.map_eq_some_iff.mp rest
  obtain ⟨unset, barred⟩ := Polled.drop_done safe.unset dropped (PollMgr.step_takes returned)
  refine ⟨fun unmade => absurd (made.symm.trans unmade) (Bool.noConfusion), unset, fun died => ?_⟩
  apply barred
  change receiver.dead = true at died
  cases dead : conn.sender.dead with
  | true => exact .inr (safe.barred dead)
  | false =>
      left
      rw [died]
      rfl

theorem Polled.Safe.writeCb (safe : conn.Safe) {result : WriteResult}
    (called : conn.writeCb result = some after) (made : conn.made = true) : after.Safe := by
  obtain ⟨⟨sender, bytes⟩, wrote, rest⟩ := Option.bind_eq_some_iff.mp called
  obtain ⟨middle, dropped, rest⟩ := Option.bind_eq_some_iff.mp rest
  obtain ⟨next, returned, rfl⟩ := Option.map_eq_some_iff.mp rest
  have unmade : conn.made = false → sender.dead = false :=
    fun unmade => absurd (made.symm.trans unmade) Bool.noConfusion
  -- `VERIFY(!dead_)`
  obtain ⟨alive, wrote⟩ := Option.ite_none_left_eq_some.mp wrote
  by_cases nothing : conn.sender.wpdu.sz = 0
  · rw [if_pos nothing] at wrote dropped
    cases wrote
    refine ⟨unmade, ?_, fun died => absurd died alive⟩
    have untold : middle.Unset conn.fd := by
      intro ch
      rw [(PollMgr.del_facts dropped).1]
      nofun
    exact untold.step not_addsFd_done (PollMgr.step_takes returned)
  · rw [if_neg nothing] at dropped
    obtain ⟨unset, barred⟩ := Polled.drop_done safe.unset dropped (PollMgr.step_takes returned)
    exact ⟨unmade, unset, fun died => barred (.inl died)⟩

theorem Polled.Safe.sent (safe : conn.Safe) {t : Thread} {waited : Bool} {b bytes : List UInt8}
    {result : WriteResult} {sender : Sender}
    (wrote : conn.sender.step (.send waited b result) = some (sender, bytes))
    (finished : conn.sent t sender = some after) (made : conn.made = true)
    (permits : conn.Permits (.send t b result)) : after.Safe := by
  obtain ⟨-, claimed⟩ := Option.ite_none_left_eq_some.mp wrote
  have born : {q : Prop} → conn.made = false → q :=
    fun unmade => absurd (made.symm.trans unmade) Bool.noConfusion
  unfold Polled.sent at finished
  by_cases dead : conn.sender.dead = true
  · rw [if_pos dead] at finished
    cases finished
    exact ⟨born, safe.unset, fun _ => safe.barred dead⟩
  · rw [if_neg dead] at finished
    by_cases died : sender.dead = true
    · rw [if_pos died] at finished
      cases finished
      have alive := Bool.eq_false_iff.mpr dead
      obtain ⟨rfl, some_bytes⟩ := Sender.claim_dies (s := conn.sender.resume waited) alive claimed died
      exact ⟨born, safe.unset, fun _ => (permits alive some_bytes).barred⟩
    · rw [if_neg died] at finished
      by_cases partly : sender.wpdu.buf.isSome = true
      · rw [if_pos partly] at finished
        obtain ⟨mgr, added, rfl⟩ := Option.map_eq_some_iff.mp finished
        refine ⟨born, ?_, fun impossible => absurd impossible died⟩
        intro ch
        change mgr.owed ≠ _
        rw [PollMgr.add_takes added]
        nofun
      · rw [if_neg partly] at finished
        cases finished
        exact ⟨born, safe.unset, fun impossible => absurd impossible died⟩

end Callbacks

omit [DecidableEq Thread] [DecidableEq Handler] in
theorem Polled.foreign_others {conn : Polled Thread Handler} {action : MgrAction Thread Handler}
    (foreign : conn.foreign action = true) : ¬ action.AddsFd conn.fd := by
  rintro ⟨flag, ch, rfl⟩
  exact of_decide_eq_true foreign rfl

theorem Polled.Safe.step {conn after : Polled Thread Handler} {action : PolledAction Thread Handler}
    (safe : conn.Safe) (permits : conn.Permits action) (taken : conn.step action = some after) :
    after.Safe := by
  have born {q : Prop} (made : conn.made = true) : conn.made = false → q :=
    fun unmade => absurd (made.symm.trans unmade) Bool.noConfusion
  cases action with
  | create =>
      obtain ⟨unmade, rest⟩ := Option.ite_none_left_eq_some.mp taken
      obtain ⟨mgr, added, rfl⟩ := Option.map_eq_some_iff.mp rest
      have alive := safe.unmade (Bool.eq_false_iff.mpr unmade)
      refine ⟨fun _ => alive, ?_, fun died => absurd (died.symm.trans alive) Bool.noConfusion⟩
      intro ch
      change mgr.owed ≠ _
      rw [PollMgr.add_takes added]
      nofun
  | poll action =>
      obtain ⟨foreign, rest⟩ := Option.ite_none_right_eq_some.mp taken
      obtain ⟨mgr, moved, rfl⟩ := Option.map_eq_some_iff.mp rest
      have others := Polled.foreign_others foreign
      have takes := PollMgr.step_takes moved
      exact ⟨safe.unmade, safe.unset.step others takes,
        fun dead => (safe.barred dead).step safe.unset others takes⟩
  | wait t =>
      obtain ⟨-, rest⟩ := Option.ite_none_right_eq_some.mp taken
      obtain ⟨⟨sender, bytes⟩, waits, rfl⟩ := Option.map_eq_some_iff.mp rest
      obtain ⟨-, same⟩ := Option.ite_none_right_eq_some.mp waits
      cases same
      exact ⟨safe.unmade, safe.unset, safe.barred⟩
  | send t b result =>
      obtain ⟨⟨made, -⟩, rest⟩ := Option.ite_none_right_eq_some.mp taken
      obtain ⟨⟨sender, bytes⟩, wrote, finished⟩ := Option.bind_eq_some_iff.mp rest
      exact safe.sent wrote finished made permits
  | finish t =>
      obtain ⟨-, rest⟩ := Option.ite_none_right_eq_some.mp taken
      obtain ⟨⟨sender, bytes⟩, finishes, rfl⟩ := Option.map_eq_some_iff.mp rest
      obtain ⟨-, same⟩ := Option.ite_none_right_eq_some.mp finishes
      cases same
      exact ⟨safe.unmade, safe.unset, safe.barred⟩
  | close t =>
      obtain ⟨⟨made, -⟩, rest⟩ := Option.ite_none_right_eq_some.mp taken
      split at rest
      next =>
        cases rest
        exact safe
      next alive =>
        cases rest
        exact ⟨born made, safe.unset, fun _ => (permits (Bool.eq_false_iff.mpr alive)).barred⟩
  | remove t =>
      obtain ⟨-, rest⟩ := Option.ite_none_right_eq_some.mp taken
      obtain ⟨mgr, called, rfl⟩ := Option.map_eq_some_iff.mp rest
      have takes := PollMgr.step_takes called
      have others : ¬ MgrAction.AddsFd conn.fd
          (.blockRemoveFd t conn.fd : MgrAction Thread Handler) := nofun
      exact ⟨safe.unmade, safe.unset.step others takes,
        fun dead => (safe.barred dead).step safe.unset others takes⟩
  | removed t =>
      obtain ⟨stage, -, rest⟩ := Option.bind_eq_some_iff.mp taken
      obtain ⟨mgr, returned, rfl⟩ := Option.map_eq_some_iff.mp rest
      have takes := PollMgr.step_takes returned
      have others : ¬ MgrAction.AddsFd conn.fd (.removed t : MgrAction Thread Handler) := nofun
      exact ⟨safe.unmade, safe.unset.step others takes,
        fun dead => (safe.barred dead).step safe.unset others takes⟩
  | readCb stream first second takes =>
      obtain ⟨⟨made, -⟩, called⟩ := Option.ite_none_right_eq_some.mp taken
      exact safe.readCb called made
  | writeCb result =>
      obtain ⟨⟨made, -⟩, called⟩ := Option.ite_none_right_eq_some.mp taken
      exact safe.writeCb called made

/-- The loop is in `write_cb` for a dead connection: the assertion fails. -/
def Polled.Aborts (conn : Polled Thread Handler) : Prop :=
  conn.sender.dead = true ∧ conn.mgr.loop.Running .write conn.fd

/-- As long as `closeconn` and the failed writes of `send` come with no interest
in writing left in the poll manager or its loop, `write_cb` never finds the
connection dead. -/
theorem write_cb_alive {pipefd fd : Nat} {this : Handler}
    {actions : List (PolledAction Thread Handler)} {conn : Polled Thread Handler}
    (ran : run Polled.step (Polled.start Thread pipefd fd this) actions = some conn)
    (permitted : Guarded Polled.step Polled.Permits (Polled.start Thread pipefd fd this) actions) :
    ¬ conn.Aborts := by
  rintro ⟨dead, running⟩
  have safe : conn.Safe := permitted.invariant
    (fun _ _ _ safe permits taken => safe.step permits taken) (.start pipefd fd this) ran
  exact (safe.barred dead).not_running running

theorem write_cb_alive_closed :
    ∃ conn, run Polled.step (Polled.start Bool 3 5 ())
        [.create, .send false [0, 0, 0, 0, 7] (.wrote 2), .poll .poll, .poll .copy,
          .poll (.select (fun _ => false) (fun fd => fd == 5)), .poll .next, .poll .call,
          .writeCb (.wrote 3), .finish false, .poll .next, .poll .poll, .poll .copy,
          .poll (.select (fun _ => false) (fun fd => fd == 5)), .poll .next, .poll .call,
          .writeCb .again, .close true, .remove true, .poll .next, .poll .poll,
          .removed true] = some conn ∧
      ¬ conn.Aborts := by
  have permitted : Guarded Polled.step Polled.Permits (Polled.start Bool 3 5 ())
      [.create, .send false [0, 0, 0, 0, 7] (.wrote 2), .poll .poll, .poll .copy,
        .poll (.select (fun _ => false) (fun fd => fd == 5)), .poll .next, .poll .call,
        .writeCb (.wrote 3), .finish false, .poll .next, .poll .poll, .poll .copy,
        .poll (.select (fun _ => false) (fun fd => fd == 5)), .poll .next, .poll .call,
        .writeCb .again, .close true, .remove true, .poll .next, .poll .poll,
        .removed true] := by
    decide
  have alive {conn : Polled Bool Unit} (ran : run _ _ _ = some conn) :
      _ = some conn ∧ ¬ conn.Aborts := ⟨ran, write_cb_alive ran permitted⟩
  exact ⟨_, alive rfl⟩

/-- `closeconn` while the interest of an earlier `send` is registered: the loop
already has the descriptor as writable, and calls `write_cb` on a dead connection. -/
theorem write_cb_dead :
    ∃ conn, run Polled.step (Polled.start Bool 3 5 ())
        [.create, .send false [0, 0, 0, 0, 7] (.wrote 2), .poll .poll, .poll .copy,
          .poll (.select (fun _ => false) (fun fd => fd == 5)), .close true, .poll .next,
          .poll .call] = some conn ∧
      conn.Aborts ∧ ∀ result, conn.step (.writeCb result) = none := by
  exact ⟨_, rfl, ⟨rfl, rfl⟩, fun _ => rfl⟩

end CseLab.Rpc
