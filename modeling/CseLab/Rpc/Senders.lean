import CseLab.Rpc.WriteCallback

/-! The threads in `send`. At most one holds `wpdu_`, the others are in the first loop;
while the connection is alive the poll manager watches for the one that writes. -/

namespace CseLab.Rpc

open Transition

variable {Thread Handler : Type*} [DecidableEq Thread] [DecidableEq Handler]

/-! ### The sections of a connection -/

inductive Polled.Does (conn : Polled Thread Handler) :
    PolledAction Thread Handler → Polled Thread Handler → Prop
  | create (unmade : conn.made = false) (mgr : PollMgr Thread Handler)
      (added : conn.mgr.add conn.fd .rdonly conn.this = some mgr) :
      Does conn .create { conn with made := true, mgr := mgr }
  | poll (action : MgrAction Thread Handler) (foreign : conn.foreign action = true)
      (mgr : PollMgr Thread Handler) (moved : conn.mgr.step action = some mgr) :
      Does conn (.poll action) { conn with mgr := mgr }
  | wait (t : Thread) (outside : conn.stage t = .out) (alive : conn.sender.dead = false)
      (taken : conn.sender.wpdu.buf.isSome = true) :
      Does conn (.wait t)
        { conn with
          sender := { conn.sender with waiters := conn.sender.waiters + 1 }
          stage := Function.update conn.stage t .waiting }
  | refused (t : Thread) (b : List UInt8) (result : WriteResult)
      (entering : conn.stage t = .out ∨ conn.stage t = .waiting)
      (dead : conn.sender.dead = true) :
      Does conn (.send t b result)
        { conn with
          sender := conn.sender.resume (decide (conn.stage t = .waiting))
          stage := Function.update conn.stage t .out }
  | sent (t : Thread) (b : List UInt8) (result : WriteResult)
      (entering : conn.stage t = .out ∨ conn.stage t = .waiting)
      (alive : conn.sender.dead = false) (free : conn.sender.wpdu.buf = none) :
      Does conn (.send t b result)
        { conn with
          sender :=
            { conn.sender.resume (decide (conn.stage t = .waiting)) with
              dead := false
              wpdu := .empty }
          stage := Function.update conn.stage t .out }
  | failed (t : Thread) (b : List UInt8) (result : WriteResult)
      (entering : conn.stage t = .out ∨ conn.stage t = .waiting)
      (alive : conn.sender.dead = false) (free : conn.sender.wpdu.buf = none) (wpdu : Charbuf)
      (held : wpdu.buf.isSome = true) :
      Does conn (.send t b result)
        { conn with
          sender :=
            { conn.sender.resume (decide (conn.stage t = .waiting)) with
              dead := true
              wpdu := wpdu }
          stage := Function.update conn.stage t .failing }
  | partly (t : Thread) (b : List UInt8) (result : WriteResult)
      (entering : conn.stage t = .out ∨ conn.stage t = .waiting)
      (alive : conn.sender.dead = false) (free : conn.sender.wpdu.buf = none) (wpdu : Charbuf)
      (held : wpdu.buf.isSome = true) (unfinished : 0 ≤ wpdu.solong ∧ wpdu.solong < wpdu.sz)
      (mgr : PollMgr Thread Handler) (added : conn.mgr.add conn.fd .wronly conn.this = some mgr) :
      Does conn (.send t b result)
        { conn with
          sender :=
            { conn.sender.resume (decide (conn.stage t = .waiting)) with
              dead := false
              wpdu := wpdu }
          stage := Function.update conn.stage t .writing
          mgr := mgr }
  | finish (t : Thread) (writing : conn.stage t = .writing)
      (held : conn.sender.wpdu.buf.isSome = true) (complete : conn.sender.complete = true) :
      Does conn (.finish t)
        { conn with
          sender := conn.sender.release
          stage := Function.update conn.stage t .out }
  | closed (t : Thread) (dead : conn.sender.dead = true) : Does conn (.close t) conn
  | close (t : Thread) (outside : conn.stage t = .out) (alive : conn.sender.dead = false) :
      Does conn (.close t)
        { conn with
          sender := { conn.sender with dead := true }
          stage := Function.update conn.stage t .closing }
  | remove (t : Thread) (leaving : conn.stage t = .failing ∨ conn.stage t = .closing)
      (mgr : PollMgr Thread Handler) :
      Does conn (.remove t) { conn with mgr := mgr }
  | removedFailing (t : Thread) (failing : conn.stage t = .failing)
      (mgr : PollMgr Thread Handler) :
      Does conn (.removed t)
        { conn with stage := Function.update conn.stage t .writing, mgr := mgr }
  | removedClosing (t : Thread) (closing : conn.stage t = .closing)
      (mgr : PollMgr Thread Handler) :
      Does conn (.removed t) { conn with stage := Function.update conn.stage t .out, mgr := mgr }
  | readCb (stream : List UInt8) (first second : ReadResult) (takes : Bool) (dead : Bool)
      (stays : conn.sender.dead = true → dead = true) (rpdu : Charbuf)
      (mgr : PollMgr Thread Handler)
      (returned : dead = false → conn.mgr.step .done = some mgr) :
      Does conn (.readCb stream first second takes)
        { conn with sender := { conn.sender with dead := dead }, rpdu := rpdu, mgr := mgr }
  | idle (result : WriteResult) (alive : conn.sender.dead = false)
      (empty : conn.sender.wpdu.sz = 0) (mgr : PollMgr Thread Handler)
      (returned : (conn.mgr.del conn.fd .wronly).bind (fun mgr => mgr.step .done) = some mgr) :
      Does conn (.writeCb result) { conn with mgr := mgr }
  | writeCb (result : WriteResult) (alive : conn.sender.dead = false)
      (unsent : conn.sender.wpdu.sz ≠ 0) (wpdu : Charbuf)
      (held : wpdu.buf.isSome = conn.sender.wpdu.buf.isSome) (dead : Bool)
      (size : dead = false → wpdu.sz = conn.sender.wpdu.sz) (mgr : PollMgr Thread Handler)
      (returned : dead = false → conn.mgr.step .done = some mgr) :
      Does conn (.writeCb result)
        { conn with sender := { conn.sender with wpdu := wpdu, dead := dead }, mgr := mgr }

section Inversion

variable {conn after : Polled Thread Handler}

omit [DecidableEq Thread] [DecidableEq Handler]

theorem writepdu_facts {wpdu next : Charbuf} {result : WriteResult} {bytes : List UInt8} {ok : Bool}
    (wrote : writepdu wpdu result = some (bytes, next, ok)) :
    wpdu.buf.isSome = true ∧ next.buf.isSome = true ∧ (ok = true → next.sz = wpdu.sz) := by
  unfold writepdu at wrote
  split at wrote
  next => cases wrote
  next buf held =>
    split at wrote
    next =>
      cases wrote
      exact ⟨by rw [held]; rfl, by rw [held]; rfl, fun _ok => rfl⟩
    next =>
      cases result with
      | wrote n =>
          obtain ⟨-, same⟩ := Option.ite_none_right_eq_some.mp wrote
          cases same
          exact ⟨by rw [held]; rfl, rfl, fun _ok => rfl⟩
      | again =>
          cases wrote
          exact ⟨by rw [held]; rfl, rfl, fun _ok => rfl⟩
      | failed =>
          cases wrote
          exact ⟨by rw [held]; rfl, rfl, nofun⟩

end Inversion

theorem Sender.complete_eq_false {s : Sender} (unfinished : s.complete = false) :
    s.dead = false ∧ 0 ≤ s.wpdu.solong ∧ s.wpdu.solong < s.wpdu.sz := by
  unfold Sender.complete at unfinished
  rw [Bool.or_eq_false_iff, Bool.or_eq_false_iff, decide_eq_false_iff_not,
    decide_eq_false_iff_not, not_lt, not_le] at unfinished
  exact ⟨unfinished.1.1, unfinished.1.2, unfinished.2⟩

theorem Sender.claim_cases {s next : Sender} {b bytes : List UInt8} {result : WriteResult}
    (alive : s.dead = false) (claimed : s.claim b result = some (next, bytes)) :
    s.wpdu.buf = none ∧
      (next = { s with dead := false, wpdu := .empty } ∨
        ∃ wpdu : Charbuf, wpdu.buf.isSome = true ∧
          (next = { s with dead := true, wpdu := wpdu } ∨
            next = { s with dead := false, wpdu := wpdu } ∧
              0 ≤ wpdu.solong ∧ wpdu.solong < wpdu.sz)) := by
  unfold Sender.claim at claimed
  rw [if_neg (by rw [alive]; exact Bool.false_ne_true)] at claimed
  obtain ⟨free, wrote⟩ := Option.ite_none_left_eq_some.mp claimed
  refine ⟨Option.not_isSome_iff_eq_none.mp free, ?_⟩
  obtain ⟨⟨written, wpdu, ok⟩, wrote, same⟩ := Option.map_eq_some_iff.mp wrote
  have held := (writepdu_facts wrote).2.1
  cases ok with
  | false =>
      cases same
      exact .inr ⟨wpdu, held, .inl rfl⟩
  | true =>
      obtain ⟨rfl, -⟩ := Prod.mk.inj same
      cases complete : ({ s with wpdu := wpdu, dead := !true } : Sender).complete with
      | true =>
          exact .inl rfl
      | false =>
          exact .inr ⟨wpdu, held, .inr ⟨rfl, (Sender.complete_eq_false complete).2⟩⟩

theorem Polled.sent_does {conn after : Polled Thread Handler} {t : Thread} {b bytes : List UInt8}
    {result : WriteResult} {sender : Sender}
    (entering : conn.stage t = .out ∨ conn.stage t = .waiting)
    (claimed : (conn.sender.resume (decide (conn.stage t = .waiting))).claim b result =
      some (sender, bytes))
    (finished : conn.sent t sender = some after) : conn.Does (.send t b result) after := by
  unfold Polled.sent at finished
  by_cases dead : conn.sender.dead = true
  · rw [if_pos dead] at finished
    have unchanged : (conn.sender.resume (decide (conn.stage t = .waiting))).claim b result =
        some (conn.sender.resume (decide (conn.stage t = .waiting)), []) := if_pos dead
    cases unchanged.symm.trans claimed
    cases finished
    exact .refused t b result entering dead
  · rw [if_neg dead] at finished
    have alive := Bool.eq_false_iff.mpr dead
    obtain ⟨free, cases⟩ := Sender.claim_cases
      (s := conn.sender.resume (decide (conn.stage t = .waiting))) alive claimed
    rcases cases with rfl | ⟨wpdu, held, rfl | ⟨rfl, unfinished⟩⟩
    · cases finished
      exact .sent t b result entering alive free
    · cases finished
      exact .failed t b result entering alive free wpdu held
    · dsimp only at finished
      rw [if_neg Bool.false_ne_true, if_pos held] at finished
      obtain ⟨mgr, added, rfl⟩ := Option.map_eq_some_iff.mp finished
      exact .partly t b result entering alive free wpdu held unfinished mgr added

theorem Polled.readCb_does {conn after : Polled Thread Handler} {stream : List UInt8}
    {first second : ReadResult} {takes : Bool}
    (called : conn.readCb stream first second takes = some after) :
    conn.Does (.readCb stream first second takes) after := by
  obtain ⟨⟨taken, receiver, pdu⟩, received, rest⟩ := Option.bind_eq_some_iff.mp called
  obtain ⟨middle, dropped, rest⟩ := Option.bind_eq_some_iff.mp rest
  obtain ⟨mgr, returned, rfl⟩ := Option.map_eq_some_iff.mp rest
  refine .readCb stream first second takes receiver.dead ?_ receiver.rpdu mgr ?_
  · intro dead
    unfold Receiver.step at received
    dsimp only at received
    rw [if_pos dead] at received
    cases received
    exact dead
  · intro alive
    rw [alive] at dropped
    cases dropped
    exact returned

theorem Polled.writeCb_does {conn after : Polled Thread Handler} {result : WriteResult}
    (called : conn.writeCb result = some after) : conn.Does (.writeCb result) after := by
  obtain ⟨⟨sender, bytes⟩, wrote, rest⟩ := Option.bind_eq_some_iff.mp called
  obtain ⟨middle, dropped, rest⟩ := Option.bind_eq_some_iff.mp rest
  obtain ⟨mgr, returned, rfl⟩ := Option.map_eq_some_iff.mp rest
  -- `VERIFY(!dead_)`
  obtain ⟨alive, wrote⟩ := Option.ite_none_left_eq_some.mp wrote
  by_cases empty : conn.sender.wpdu.sz = 0
  · rw [if_pos empty] at wrote dropped
    cases wrote
    refine .idle result (Bool.eq_false_iff.mpr alive) empty mgr ?_
    rw [dropped]
    exact returned
  · rw [if_neg empty] at wrote dropped
    obtain ⟨⟨written, wpdu, ok⟩, wrote, same⟩ := Option.map_eq_some_iff.mp wrote
    cases same
    obtain ⟨before, held, keeps⟩ := writepdu_facts wrote
    refine .writeCb result (Bool.eq_false_iff.mpr alive) empty wpdu (held.trans before.symm) (!ok)
      ?_ mgr ?_
    · intro valid
      exact keeps (Bool.not_eq_eq_eq_not.mp valid)
    · intro valid
      dsimp only at dropped
      rw [valid] at dropped
      cases dropped
      exact returned

theorem Polled.step_does {conn after : Polled Thread Handler}
    {action : PolledAction Thread Handler} (taken : conn.step action = some after) :
    conn.Does action after := by
  cases action with
  | create =>
      obtain ⟨unmade, rest⟩ := Option.ite_none_left_eq_some.mp taken
      obtain ⟨mgr, added, rfl⟩ := Option.map_eq_some_iff.mp rest
      exact .create (Bool.eq_false_iff.mpr unmade) mgr added
  | poll action =>
      obtain ⟨foreign, rest⟩ := Option.ite_none_right_eq_some.mp taken
      obtain ⟨mgr, moved, rfl⟩ := Option.map_eq_some_iff.mp rest
      exact .poll action foreign mgr moved
  | wait t =>
      obtain ⟨⟨-, outside⟩, rest⟩ := Option.ite_none_right_eq_some.mp taken
      obtain ⟨⟨sender, bytes⟩, waits, rfl⟩ := Option.map_eq_some_iff.mp rest
      obtain ⟨⟨alive, held⟩, same⟩ := Option.ite_none_right_eq_some.mp waits
      cases same
      exact .wait t outside alive held
  | send t b result =>
      obtain ⟨⟨-, entering⟩, rest⟩ := Option.ite_none_right_eq_some.mp taken
      obtain ⟨⟨sender, bytes⟩, wrote, finished⟩ := Option.bind_eq_some_iff.mp rest
      obtain ⟨-, claimed⟩ := Option.ite_none_left_eq_some.mp wrote
      exact Polled.sent_does entering claimed finished
  | finish t =>
      obtain ⟨writing, rest⟩ := Option.ite_none_right_eq_some.mp taken
      obtain ⟨⟨sender, bytes⟩, finishes, rfl⟩ := Option.map_eq_some_iff.mp rest
      obtain ⟨⟨held, complete⟩, same⟩ := Option.ite_none_right_eq_some.mp finishes
      cases same
      exact .finish t writing held complete
  | close t =>
      obtain ⟨⟨-, outside⟩, rest⟩ := Option.ite_none_right_eq_some.mp taken
      split at rest
      next dead =>
        cases rest
        exact .closed t dead
      next alive =>
        cases rest
        exact .close t outside (Bool.eq_false_iff.mpr alive)
  | remove t =>
      obtain ⟨leaving, rest⟩ := Option.ite_none_right_eq_some.mp taken
      obtain ⟨mgr, -, rfl⟩ := Option.map_eq_some_iff.mp rest
      exact .remove t leaving mgr
  | removed t =>
      obtain ⟨stage, next, rest⟩ := Option.bind_eq_some_iff.mp taken
      obtain ⟨mgr, -, rfl⟩ := Option.map_eq_some_iff.mp rest
      cases here : conn.stage t with
      | failing =>
          rw [here] at next
          cases next
          exact .removedFailing t here mgr
      | closing =>
          rw [here] at next
          cases next
          exact .removedClosing t here mgr
      | out | waiting | writing =>
          rw [here] at next
          cases next
  | readCb stream first second takes =>
      exact Polled.readCb_does (Option.ite_none_right_eq_some.mp taken).2
  | writeCb result => exact Polled.writeCb_does (Option.ite_none_right_eq_some.mp taken).2

/-- No section revives a connection. -/
theorem Polled.Does.dead {conn after : Polled Thread Handler}
    {action : PolledAction Thread Handler} (does : conn.Does action after)
    (dead : conn.sender.dead = true) : after.sender.dead = true := by
  cases does with
  | sent t b result entering alive free => exact alive.symm.trans dead
  | partly t b result entering alive free wpdu held unfinished mgr added =>
      exact alive.symm.trans dead
  | readCb stream first second takes died stays rpdu mgr returned => exact stays dead
  | writeCb result alive unsent wpdu held died size mgr returned =>
      exact Bool.noConfusion (alive.symm.trans dead)
  | failed _ _ _ _ _ _ _ _ | close _ _ _ => rfl
  | create _ _ _ | poll _ _ _ _ | wait _ _ _ _ | refused _ _ _ _ _ | finish _ _ _ _ | closed _ _
  | remove _ _ _ | removedFailing _ _ _ | removedClosing _ _ _ | idle _ _ _ _ _ => exact dead

/-! ### The poll manager and one descriptor -/

/-- No thread is about to store to `callbacks_[fd]`, whether to set or to clear it. -/
structure PollMgr.Untouched (fd : Nat) (p : PollMgr Thread Handler) : Prop where
  unset : p.Unset fd
  uncleared : p.owed ≠ some (.clear fd)
  unremoved : ∀ t, p.removers t ≠ .waiting fd ∧ p.removers t ≠ .woken fd

theorem Remover.wake_ne {r : Remover} {fd : Nat} (apart : r ≠ .waiting fd ∧ r ≠ .woken fd) :
    r.wake ≠ .waiting fd ∧ r.wake ≠ .woken fd := by
  cases r with
  | out => exact ⟨nofun, nofun⟩
  | waiting other => exact ⟨nofun, fun same => apart.1 (congrArg _ (Remover.woken.inj same))⟩
  | woken other => exact apart

section Descriptor

variable {p next : PollMgr Thread Handler} {fd : Nat} {flag : PollFlag}

omit [DecidableEq Handler] in
theorem PollMgr.Takes.spares {action : MgrAction Thread Handler} (takes : p.Takes action next)
    (untouched : p.Untouched fd) (spares : action.spares fd = true) :
    next.Untouched fd ∧ next.callbacks fd = p.callbacks fd ∧
      ∀ kind, next.aio.fds kind fd = p.aio.fds kind fd := by
  have ⟨unset, uncleared, unremoved⟩ := untouched
  cases takes with
  | addCallback other flag ch free =>
      have apart : other ≠ fd := of_decide_eq_true spares
      refine ⟨⟨?_, nofun, unremoved⟩, rfl, ?_⟩
      · intro handler same
        cases same
        exact apart rfl
      · intro kind
        dsimp only
        rw [SelectAio.fds_watchFd]
        split
        · rw [Function.update_of_ne apart.symm]
        · rfl
  | delCallback other flag free =>
      have apart : other ≠ fd := of_decide_eq_true spares
      refine ⟨⟨?_, ?_, unremoved⟩, rfl, ?_⟩
      · intro handler same
        dsimp only at same
        split at same <;> cases same
      · intro same
        dsimp only at same
        split at same
        · cases same
          exact apart rfl
        · cases same
      · intro kind
        dsimp only
        rw [SelectAio.fds_unwatchFd]
        split
        · rw [Function.update_of_ne apart.symm]
        · rfl
  | set other ch owed =>
      have apart : fd ≠ other := by
        rintro rfl
        exact unset ch owed
      exact ⟨⟨nofun, nofun, unremoved⟩, Function.update_of_ne apart _ _, fun _kind => rfl⟩
  | clear other owed =>
      have apart : fd ≠ other := by
        rintro rfl
        exact uncleared owed
      exact ⟨⟨nofun, nofun, unremoved⟩, Function.update_of_ne apart _ _, fun _kind => rfl⟩
  | blockRemoveFd t other outside =>
      have apart : other ≠ fd := of_decide_eq_true spares
      refine ⟨⟨unset, uncleared, ?_⟩, rfl, ?_⟩
      · intro u
        dsimp only
        by_cases same : u = t
        · rw [same, Function.update_self]
          exact ⟨fun waits => apart (Remover.waiting.inj waits), nofun⟩
        · rw [Function.update_of_ne same]
          exact unremoved u
      · intro kind
        dsimp only
        rw [SelectAio.fds_unwatchFd]
        split
        · rw [Function.update_of_ne apart.symm]
        · rfl
  | removed t other woken =>
      have apart : fd ≠ other := by
        rintro rfl
        exact (unremoved t).2 woken
      refine ⟨⟨unset, uncleared, ?_⟩, Function.update_of_ne apart _ _, fun _kind => rfl⟩
      intro u
      dsimp only
      by_cases same : u = t
      · rw [same, Function.update_self]
        exact ⟨nofun, nofun⟩
      · rw [Function.update_of_ne same]
        exact unremoved u
  | poll here =>
      refine ⟨⟨unset, uncleared, ?_⟩, rfl, fun _kind => rfl⟩
      intro u
      dsimp only
      split
      · exact Remover.wake_ne (unremoved u)
      · exact unremoved u
  | copy _ | select _ _ _ _ _ _ _ _ | next _ _ _ | call _ _ _ _ _ _ | done _ _ _ _ _ =>
      exact ⟨⟨unset, uncleared, unremoved⟩, rfl, fun _kind => rfl⟩

theorem PollMgr.add_untouched {ch : Handler} (untouched : p.Untouched fd)
    (added : p.add fd flag ch = some next) :
    next.Untouched fd ∧ next.callbacks fd = some ch ∧
      ∀ kind, flag.covers kind = true ∨ p.aio.fds kind fd = true →
        next.aio.fds kind fd = true := by
  obtain ⟨middle, watched, stored⟩ := Option.bind_eq_some_iff.mp added
  cases PollMgr.step_takes watched
  cases PollMgr.step_takes stored with
  | set other handler owed =>
      cases owed
      refine ⟨⟨nofun, nofun, untouched.unremoved⟩, Function.update_self _ _ _, ?_⟩
      intro kind asked
      dsimp only
      rw [SelectAio.fds_watchFd]
      split
      · exact Function.update_self _ _ _
      · rename_i uncovered
        exact asked.resolve_left uncovered
  | clear other owed => cases owed

theorem PollMgr.del_untouched (untouched : p.Untouched fd) (deleted : p.del fd flag = some next) :
    next.Untouched fd := by
  obtain ⟨middle, unwatched, stored⟩ := Option.bind_eq_some_iff.mp deleted
  cases PollMgr.step_takes unwatched
  cases idle : (p.aio.unwatchFd fd flag).1 with
  | true =>
      rw [idle] at stored
      cases stored
      exact ⟨nofun, nofun, untouched.unremoved⟩
  | false =>
      rw [idle] at stored
      cases stored
      exact ⟨nofun, nofun, untouched.unremoved⟩

end Descriptor

omit [DecidableEq Thread] [DecidableEq Handler] in
theorem Polled.foreign_spares {conn : Polled Thread Handler} {action : MgrAction Thread Handler}
    (foreign : conn.foreign action = true) : action.spares conn.fd = true := by
  cases action with
  | addCallback fd flag ch => exact foreign
  | delCallback fd flag => exact foreign
  | blockRemoveFd t fd => exact decide_eq_true (of_decide_eq_true foreign).1
  | _ => rfl

/-! ### Who holds `wpdu_` -/

def Stage.holds : Stage → Bool
  | .writing | .failing => true
  | .out | .waiting | .closing => false

def Holder (stage : Thread → Stage) (taken : Bool) : Prop :=
  ∃ holder : Option Thread, holder.isSome = taken ∧
    ∀ t, (stage t).holds = true ↔ holder = some t

def Waiters (stage : Thread → Stage) (count : Nat) : Prop :=
  ∃ threads : Finset Thread, (∀ t, t ∈ threads ↔ stage t = .waiting) ∧ count = threads.card

section Threads

variable {stage : Thread → Stage} {taken : Bool} {count : Nat} {t u : Thread} {moved : Stage}

omit [DecidableEq Handler]

theorem Holder.kept (holder : Holder stage taken) (same : moved.holds = (stage t).holds) :
    Holder (Function.update stage t moved) taken := by
  obtain ⟨holder, some, owns⟩ := holder
  refine ⟨holder, some, fun u => ?_⟩
  by_cases here : u = t
  · rw [here, Function.update_self, same]
    exact owns t
  · rw [Function.update_of_ne here]
    exact owns u

theorem Holder.claimed (holder : Holder stage false) (holds : moved.holds = true) :
    Holder (Function.update stage t moved) true := by
  obtain ⟨holder, free, owns⟩ := holder
  have none : holder = none := Option.not_isSome_iff_eq_none.mp (Bool.not_eq_true _ ▸ free)
  refine ⟨some t, rfl, fun u => ?_⟩
  by_cases here : u = t
  · rw [here, Function.update_self]
    exact iff_of_true holds rfl
  · rw [Function.update_of_ne here, owns u, none]
    exact iff_of_false (Option.some_ne_none u).symm
      (fun same => here (Option.some.inj same).symm)

theorem Holder.released (holder : Holder stage taken) (held : (stage t).holds = true)
    (releases : moved.holds = false) : Holder (Function.update stage t moved) false := by
  obtain ⟨holder, -, owns⟩ := holder
  refine ⟨none, rfl, fun u => ?_⟩
  by_cases here : u = t
  · rw [here, Function.update_self, releases]
    exact iff_of_false Bool.false_ne_true (Option.some_ne_none t).symm
  · rw [Function.update_of_ne here, owns u, (owns t).mp held]
    exact iff_of_false (fun same => here (Option.some.inj same).symm) (Option.some_ne_none u).symm

omit [DecidableEq Thread] in
theorem Holder.unique (holder : Holder stage taken) (left : (stage t).holds = true)
    (right : (stage u).holds = true) : t = u := by
  obtain ⟨holder, -, owns⟩ := holder
  exact Option.some.inj (((owns t).mp left).symm.trans ((owns u).mp right))

omit [DecidableEq Thread] in
theorem Holder.free (holder : Holder stage false) (t : Thread) : (stage t).holds = false := by
  obtain ⟨holder, free, owns⟩ := holder
  have none : holder = none := Option.not_isSome_iff_eq_none.mp (Bool.not_eq_true _ ▸ free)
  rw [← Bool.not_eq_true, owns t, none]
  exact (Option.some_ne_none t).symm

theorem Waiters.kept (waiters : Waiters stage count) (before : stage t ≠ .waiting)
    (later : moved ≠ .waiting) : Waiters (Function.update stage t moved) count := by
  obtain ⟨threads, members, size⟩ := waiters
  refine ⟨threads, fun u => ?_, size⟩
  by_cases here : u = t
  · rw [here, Function.update_self, members t]
    exact iff_of_false before later
  · rw [Function.update_of_ne here]
    exact members u

theorem Waiters.joined (waiters : Waiters stage count) (before : stage t ≠ .waiting) :
    Waiters (Function.update stage t .waiting) (count + 1) := by
  obtain ⟨threads, members, size⟩ := waiters
  refine ⟨insert t threads, fun u => ?_, ?_⟩
  · by_cases here : u = t
    · rw [here, Function.update_self]
      exact iff_of_true (Finset.mem_insert_self _ _) rfl
    · rw [Function.update_of_ne here, Finset.mem_insert, or_iff_right here]
      exact members u
  · rw [Finset.card_insert_of_notMem (fun inside => before ((members t).mp inside)), size]

theorem Waiters.resumed {s : Sender} (waiters : Waiters stage s.waiters)
    (later : moved ≠ .waiting) :
    Waiters (Function.update stage t moved)
      (s.resume (decide (stage t = .waiting))).waiters := by
  by_cases waiting : stage t = .waiting
  · obtain ⟨threads, members, size⟩ := waiters
    refine ⟨threads.erase t, fun u => ?_, ?_⟩
    · by_cases here : u = t
      · rw [here, Function.update_self]
        exact iff_of_false (Finset.notMem_erase t threads) later
      · rw [Function.update_of_ne here, Finset.mem_erase, and_iff_right here]
        exact members u
    · rw [Finset.card_erase_of_mem ((members t).mpr waiting), ← size, decide_eq_true waiting]
      rfl
  · rw [decide_eq_false waiting]
    exact waiters.kept waiting later

omit [DecidableEq Thread] in
theorem Waiters.positive (waiters : Waiters stage count) (waiting : stage t = .waiting) :
    0 < count := by
  obtain ⟨threads, members, size⟩ := waiters
  rw [size]
  exact Finset.card_pos.mpr ⟨t, (members t).mpr waiting⟩

end Threads

/-- One thread holds `wpdu_` while it is set, `waiters_` counts the threads in the first
loop of `send`, and a live connection is watched for the thread that writes. -/
structure Polled.Shared (conn : Polled Thread Handler) : Prop where
  holder : Holder conn.stage conn.sender.wpdu.buf.isSome
  waiters : Waiters conn.stage conn.sender.waiters
  dying : ∀ t, conn.stage t = .failing ∨ conn.stage t = .closing → conn.sender.dead = true
  untouched : conn.sender.dead = false → conn.mgr.Untouched conn.fd
  watched : conn.sender.dead = false → ∀ t, conn.stage t = .writing →
    conn.sender.wpdu.sz ≠ 0 ∧ conn.mgr.aio.fds .write conn.fd = true ∧
      conn.mgr.callbacks conn.fd = some conn.this

omit [DecidableEq Thread] [DecidableEq Handler] in
theorem Polled.Shared.start (pipefd fd : Nat) (this : Handler) :
    (Polled.start Thread pipefd fd this).Shared where
  holder := ⟨none, rfl, fun t => iff_of_false Bool.false_ne_true (Option.some_ne_none t).symm⟩
  waiters := ⟨∅, fun t => iff_of_false (Finset.notMem_empty t) (fun stage => by cases stage), rfl⟩
  dying := fun _t stage => by rcases stage with stage | stage <;> cases stage
  untouched := by
    intro _alive
    constructor
    · intro ch owed
      cases owed
    · intro owed
      cases owed
    · intro t
      constructor
      · intro waiting
        cases waiting
      · intro woken
        cases woken
  watched := fun _alive _t stage => by cases stage

section SharedStep

variable {conn after : Polled Thread Handler} {action : PolledAction Thread Handler}

theorem Polled.Shared.moved (shared : conn.Shared) {action : MgrAction Thread Handler}
    {mgr : PollMgr Thread Handler} (spares : action.spares conn.fd = true)
    (step : conn.mgr.step action = some mgr) (alive : conn.sender.dead = false) :
    mgr.Untouched conn.fd ∧ ∀ t, conn.stage t = .writing →
      conn.sender.wpdu.sz ≠ 0 ∧ mgr.aio.fds .write conn.fd = true ∧
        mgr.callbacks conn.fd = some conn.this := by
  obtain ⟨untouched, callbacks, fds⟩ :=
    (PollMgr.step_takes step).spares (shared.untouched alive) spares
  refine ⟨untouched, fun t writing => ?_⟩
  obtain ⟨some, watched, set⟩ := shared.watched alive t writing
  exact ⟨some, (fds .write).trans watched, callbacks.trans set⟩

omit [DecidableEq Handler] in
theorem Polled.Shared.dying_update (shared : conn.Shared) {t : Thread} {moved : Stage} {dead : Bool}
    (later : conn.sender.dead = true → dead = true)
    (here : moved = .failing ∨ moved = .closing → dead = true) :
    ∀ u, Function.update conn.stage t moved u = .failing ∨
      Function.update conn.stage t moved u = .closing → dead = true :=
  (Function.forall_update_iff conn.stage
    (fun _u stage => stage = .failing ∨ stage = .closing → dead = true)).mpr
      ⟨here, fun u _other stage => later (shared.dying u stage)⟩

omit [DecidableEq Handler] in
theorem Polled.Shared.watched_update (shared : conn.Shared) (alive : conn.sender.dead = false)
    {t : Thread} {moved : Stage} (idle : moved ≠ .writing) :
    ∀ u, Function.update conn.stage t moved u = .writing →
      conn.sender.wpdu.sz ≠ 0 ∧ conn.mgr.aio.fds .write conn.fd = true ∧
        conn.mgr.callbacks conn.fd = some conn.this :=
  (Function.forall_update_iff conn.stage
    (fun _u stage => stage = .writing →
      conn.sender.wpdu.sz ≠ 0 ∧ conn.mgr.aio.fds .write conn.fd = true ∧
        conn.mgr.callbacks conn.fd = some conn.this)).mpr
      ⟨fun same => absurd same idle, fun u _other stage => shared.watched alive u stage⟩

omit [DecidableEq Thread] [DecidableEq Handler] in
theorem Holder.none_writing {stage : Thread → Stage} (holder : Holder stage false) {q : Prop}
    (t : Thread) (writing : stage t = .writing) : q := by
  have free := holder.free t
  rw [writing] at free
  cases free

theorem entering_facts {stage : Stage} (entering : stage = .out ∨ stage = .waiting) :
    stage.holds = false := by
  rcases entering with rfl | rfl <;> rfl

/-- One section keeps the accounts of all threads. -/
theorem Polled.Shared.step (shared : conn.Shared) (does : conn.Does action after) :
    after.Shared := by
  cases does with
  | create unmade mgr added =>
      refine ⟨shared.holder, shared.waiters, shared.dying, ?_, ?_⟩
      · intro alive
        exact (PollMgr.add_untouched (shared.untouched alive) added).1
      · intro alive t writing
        obtain ⟨some, watched, -⟩ := shared.watched alive t writing
        obtain ⟨-, set, asked⟩ := PollMgr.add_untouched (shared.untouched alive) added
        exact ⟨some, asked .write (.inr watched), set⟩
  | poll action foreign mgr moved =>
      have spares := Polled.foreign_spares foreign
      exact ⟨shared.holder, shared.waiters, shared.dying,
        fun alive => (shared.moved spares moved alive).1,
        fun alive => (shared.moved spares moved alive).2⟩
  | wait t outside alive taken =>
      refine ⟨shared.holder.kept (by rw [outside]; rfl),
        shared.waiters.joined (by rw [outside]; nofun), shared.dying_update id (by nofun),
        shared.untouched, fun alive => shared.watched_update alive (by nofun)⟩
  | refused t b result entering dead =>
      exact ⟨shared.holder.kept (entering_facts entering).symm, shared.waiters.resumed (by nofun),
        shared.dying_update id (by nofun), shared.untouched,
        fun alive => Bool.noConfusion (alive.symm.trans dead)⟩
  | sent t b result entering alive free =>
      have holder := shared.holder
      rw [free] at holder
      have free : Holder (Function.update _ t Stage.out) false :=
        holder.kept (entering_facts entering).symm
      exact ⟨free, shared.waiters.resumed (by nofun),
        shared.dying_update (fun dead => alive.symm.trans dead) (by nofun),
        fun _alive => shared.untouched alive, fun _alive t writing => free.none_writing t writing⟩
  | failed t b result entering alive free wpdu held =>
      have holder := shared.holder
      rw [free] at holder
      refine ⟨?_, shared.waiters.resumed (by nofun), shared.dying_update (fun _ => rfl) (fun _ => rfl),
        nofun, nofun⟩
      dsimp only
      rw [held]
      exact holder.claimed rfl
  | partly t b result entering alive free wpdu held unfinished mgr added =>
      have holder := shared.holder
      rw [free] at holder
      obtain ⟨untouched, set, watched⟩ := PollMgr.add_untouched (shared.untouched alive) added
      refine ⟨?_, shared.waiters.resumed (by nofun),
        shared.dying_update (fun dead => alive.symm.trans dead) (by nofun),
        fun _alive => untouched, ?_⟩
      · dsimp only
        rw [held]
        exact holder.claimed rfl
      · intro _alive u writing
        refine ⟨?_, watched .write (.inl rfl), set⟩
        dsimp only
        omega
  | finish t writing held complete =>
      have free : Holder (Function.update _ t Stage.out) false :=
        shared.holder.released (by rw [writing]; rfl) rfl
      exact ⟨free, shared.waiters.kept (by rw [writing]; nofun) (by nofun),
        shared.dying_update id (by nofun), shared.untouched,
        fun _alive t writing => free.none_writing t writing⟩
  | closed t dead => exact shared
  | close t outside alive =>
      exact ⟨shared.holder.kept (by rw [outside]; rfl),
        shared.waiters.kept (by rw [outside]; nofun) (by nofun),
        shared.dying_update (fun _ => rfl) (fun _ => rfl), nofun, nofun⟩
  | remove t leaving mgr =>
      have dead := shared.dying t leaving
      exact ⟨shared.holder, shared.waiters, shared.dying,
        fun alive => Bool.noConfusion (alive.symm.trans dead),
        fun alive => Bool.noConfusion (alive.symm.trans dead)⟩
  | removedFailing t failing mgr =>
      have dead := shared.dying t (.inl failing)
      exact ⟨shared.holder.kept (by rw [failing]; rfl),
        shared.waiters.kept (by rw [failing]; nofun) (by nofun), shared.dying_update id (by nofun),
        fun alive => Bool.noConfusion (alive.symm.trans dead),
        fun alive => Bool.noConfusion (alive.symm.trans dead)⟩
  | removedClosing t closing mgr =>
      have dead := shared.dying t (.inr closing)
      exact ⟨shared.holder.kept (by rw [closing]; rfl),
        shared.waiters.kept (by rw [closing]; nofun) (by nofun), shared.dying_update id (by nofun),
        fun alive => Bool.noConfusion (alive.symm.trans dead),
        fun alive => Bool.noConfusion (alive.symm.trans dead)⟩
  | readCb stream first second takes dead stays rpdu mgr returned =>
      have alive (valid : dead = false) : conn.sender.dead = false := by
        by_contra died
        rw [stays (Bool.not_eq_false _ ▸ died)] at valid
        cases valid
      refine ⟨shared.holder, shared.waiters, fun t stage => stays (shared.dying t stage), ?_, ?_⟩
      · exact fun valid => (shared.moved rfl (returned valid) (alive valid)).1
      · exact fun valid => (shared.moved rfl (returned valid) (alive valid)).2
  | idle result alive empty mgr returned =>
      obtain ⟨middle, deleted, done⟩ := Option.bind_eq_some_iff.mp returned
      have untouched := PollMgr.del_untouched (shared.untouched alive) deleted
      refine ⟨shared.holder, shared.waiters, shared.dying, fun _alive =>
        ((PollMgr.step_takes done).spares untouched rfl).1, ?_⟩
      intro _alive t writing
      exact absurd empty (shared.watched alive t writing).1
  | writeCb result alive unsent wpdu held dead size mgr returned =>
      refine ⟨?_, shared.waiters, fun t stage => ?_, ?_, ?_⟩
      · dsimp only
        rw [held]
        exact shared.holder
      · exact Bool.noConfusion (alive.symm.trans (shared.dying t stage))
      · exact fun valid => (shared.moved rfl (returned valid) alive).1
      · intro valid t writing
        obtain ⟨some, watched, set⟩ := (shared.moved rfl (returned valid) alive).2 t writing
        exact ⟨by rw [size valid]; exact some, watched, set⟩

end SharedStep

end CseLab.Rpc
