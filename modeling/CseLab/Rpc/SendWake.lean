import CseLab.Rpc.Senders

/-! The two condition variables of `send`. A thread that finds `wpdu_` taken sleeps
until the thread that holds it leaves; that one sleeps until its PDU is written or
the connection is found broken. `closeconn` wakes neither of them. -/

namespace CseLab.Rpc

open Transition

variable {Thread Handler : Type*}

/-- A connection, and the threads that sleep: in the first loop of `send` on
`send_wait_`, in the second on `send_complete_`. -/
structure Waking (Thread Handler : Type*) where
  conn : Polled Thread Handler
  asleep : Thread → Bool

def Waking.start (Thread : Type*) {Handler : Type*} (pipefd fd : Nat) (this : Handler) :
    Waking Thread Handler :=
  { conn := .start Thread pipefd fd this, asleep := fun _ => false }

/-- `again` is a thread that is awake and finds the condition of its loop unchanged;
`spurious` is `pthread_cond_wait` returning for no reason. -/
inductive WakingAction (Thread Handler : Type*) where
  | conn (action : PolledAction Thread Handler)
  | again (t : Thread)
  | spurious (t : Thread)

def Waking.broadcast (w : Waking Thread Handler) (waiters : Nat) : Thread → Bool :=
  if 0 < waiters then fun t => w.asleep t && decide (w.conn.stage t ≠ .waiting) else w.asleep

/-- `pthread_cond_signal(&send_complete_)`. One thread at most sleeps there. -/
def Waking.signal (w : Waking Thread Handler) : Thread → Bool :=
  fun t => w.asleep t && decide (w.conn.stage t ≠ .writing)

variable [DecidableEq Thread] [DecidableEq Handler]

def Waking.sleepers (w : Waking Thread Handler) (after : Polled Thread Handler) :
    PolledAction Thread Handler → Thread → Bool
  | .wait t => Function.update w.asleep t true
  | .send t _ _ =>
      if after.stage t = .writing then Function.update w.asleep t true
      else if after.stage t = .out ∧ w.conn.sender.dead = false then
        w.broadcast after.sender.waiters
      else w.asleep
  | .finish _ => w.broadcast after.sender.waiters
  | .readCb _ _ _ _ =>
      if w.conn.sender.dead = false ∧ after.sender.dead = true then w.signal else w.asleep
  | .writeCb _ =>
      if w.conn.sender.wpdu.sz ≠ 0 ∧ after.sender.complete = true then w.signal else w.asleep
  | _ => w.asleep

def Waking.awake (w : Waking Thread Handler) : PolledAction Thread Handler → Bool
  | .send t _ _ | .finish t => !w.asleep t
  | _ => true

def Waking.step (w : Waking Thread Handler) :
    WakingAction Thread Handler → Option (Waking Thread Handler)
  | .conn action =>
      if w.awake action then
        (w.conn.step action).map fun after =>
          { conn := after, asleep := w.sleepers after action }
      else none
  | .again t =>
      if w.asleep t = false ∧
          (w.conn.stage t = .waiting ∧ w.conn.sender.dead = false ∧
              w.conn.sender.wpdu.buf.isSome ∨
            w.conn.stage t = .writing ∧ w.conn.sender.complete = false) then
        some { w with asleep := Function.update w.asleep t true }
      else none
  | .spurious t =>
      if w.asleep t then some { w with asleep := Function.update w.asleep t false } else none

theorem Waking.step_conn {w next : Waking Thread Handler} {action : PolledAction Thread Handler}
    (taken : w.step (.conn action) = some next) :
    w.awake action = true ∧ ∃ after, w.conn.Does action after ∧
      next = { conn := after, asleep := w.sleepers after action } := by
  dsimp only [Waking.step] at taken
  obtain ⟨awake, rest⟩ := Option.ite_none_right_eq_some.mp taken
  obtain ⟨after, stepped, rfl⟩ := Option.map_eq_some_iff.mp rest
  exact ⟨awake, after, Polled.step_does stepped, rfl⟩

/-! ### Who sleeps -/

/-- A thread sleeps only in a loop of `send`, in the first one only while `wpdu_` is
taken, and in the second one on a live connection only while there is more to write. -/
structure Waking.Sound (w : Waking Thread Handler) : Prop where
  shared : w.conn.Shared
  places : ∀ t, w.asleep t = true → w.conn.stage t = .waiting ∨ w.conn.stage t = .writing
  waiting : ∀ t, w.asleep t = true → w.conn.stage t = .waiting →
    w.conn.sender.wpdu.buf.isSome = true
  writing : ∀ t, w.asleep t = true → w.conn.stage t = .writing → w.conn.sender.dead = false →
    w.conn.sender.complete = false

omit [DecidableEq Thread] [DecidableEq Handler] in
theorem Waking.Sound.start (pipefd fd : Nat) (this : Handler) :
    (Waking.start Thread pipefd fd this).Sound where
  shared := .start pipefd fd this
  places := fun _t => nofun
  waiting := fun _t => nofun
  writing := fun _t => nofun

section Sections

variable {w : Waking Thread Handler} {after : Polled Thread Handler} {t u : Thread}
  {action : PolledAction Thread Handler}

omit [DecidableEq Thread] [DecidableEq Handler] in
theorem Waking.broadcast_asleep {waiters : Nat} (asleep : w.broadcast waiters u = true) :
    w.asleep u = true ∧ (0 < waiters → w.conn.stage u ≠ .waiting) := by
  unfold Waking.broadcast at asleep
  split at asleep
  · obtain ⟨was, other⟩ := Bool.and_eq_true_iff.mp asleep
    exact ⟨was, fun _some => of_decide_eq_true other⟩
  · rename_i none
    exact ⟨asleep, fun some => absurd some none⟩

omit [DecidableEq Thread] [DecidableEq Handler] in
theorem Waking.signal_asleep (asleep : w.signal u = true) :
    w.asleep u = true ∧ w.conn.stage u ≠ .writing := by
  obtain ⟨was, other⟩ := Bool.and_eq_true_iff.mp asleep
  exact ⟨was, of_decide_eq_true other⟩

theorem Waking.sleepers_asleep (does : w.conn.Does action after)
    (asleep : w.sleepers after action u = true) :
    w.asleep u = true ∨ action = .wait u ∨
      (∃ b result, action = .send u b result) ∧ after.stage u = .writing := by
  cases action with
  | wait t =>
      dsimp only [Waking.sleepers] at asleep
      by_cases here : u = t
      · exact .inr (.inl (here ▸ rfl))
      · rw [Function.update_of_ne here] at asleep
        exact .inl asleep
  | send t b result =>
      dsimp only [Waking.sleepers] at asleep
      split at asleep
      · rename_i writing
        by_cases here : u = t
        · exact .inr (.inr ⟨⟨b, result, here ▸ rfl⟩, here ▸ writing⟩)
        · rw [Function.update_of_ne here] at asleep
          exact .inl asleep
      · split at asleep
        · exact .inl (Waking.broadcast_asleep asleep).1
        · exact .inl asleep
  | finish t => exact .inl (Waking.broadcast_asleep asleep).1
  | readCb stream first second takes =>
      dsimp only [Waking.sleepers] at asleep
      split at asleep
      · exact .inl (Waking.signal_asleep asleep).1
      · exact .inl asleep
  | writeCb result =>
      dsimp only [Waking.sleepers] at asleep
      split at asleep
      · exact .inl (Waking.signal_asleep asleep).1
      · exact .inl asleep
  | create | poll _ | close _ | remove _ | removed _ => exact .inl asleep

theorem Waking.Sound.stays (sound : w.Sound) (awake : w.awake action = true)
    (does : w.conn.Does action after) (asleep : w.asleep u = true) :
    after.stage u = w.conn.stage u := by
  have apart {t : Thread} {stage : Stage} (here : w.conn.stage t = stage)
      (other : stage ≠ .waiting ∧ stage ≠ .writing) : u ≠ t := by
    rintro rfl
    rw [← here] at other
    rcases sound.places u asleep with waiting | writing
    · exact other.1 waiting
    · exact other.2 writing
  have acts {t : Thread} (awake : (!w.asleep t) = true) : u ≠ t := by
    rintro rfl
    rw [asleep] at awake
    cases awake
  cases does with
  | wait t outside alive taken =>
      exact Function.update_of_ne (apart outside ⟨nofun, nofun⟩) _ _
  | close t outside alive => exact Function.update_of_ne (apart outside ⟨nofun, nofun⟩) _ _
  | removedFailing t failing mgr =>
      exact Function.update_of_ne (apart failing ⟨nofun, nofun⟩) _ _
  | removedClosing t closing mgr =>
      exact Function.update_of_ne (apart closing ⟨nofun, nofun⟩) _ _
  | refused t b result entering dead => exact Function.update_of_ne (acts awake) _ _
  | sent t b result entering alive free => exact Function.update_of_ne (acts awake) _ _
  | failed t b result entering alive free wpdu held =>
      exact Function.update_of_ne (acts awake) _ _
  | partly t b result entering alive free wpdu held unfinished mgr added =>
      exact Function.update_of_ne (acts awake) _ _
  | finish t writing held complete => exact Function.update_of_ne (acts awake) _ _
  | create _ _ _ | poll _ _ _ _ | closed _ _ | remove _ _ _ | readCb _ _ _ _ _ _ _ _ _
  | idle _ _ _ _ _ | writeCb _ _ _ _ _ _ _ _ _ => rfl

theorem Waking.Sound.waiting_step (sound : w.Sound) (awake : w.awake action = true)
    (does : w.conn.Does action after) (asleep : w.sleepers after action u = true)
    (stage : after.stage u = .waiting) : after.sender.wpdu.buf.isSome = true := by
  rcases Waking.sleepers_asleep does asleep with was | rfl | ⟨-, writing⟩
  · have waiting := (sound.stays awake does was).symm.trans stage
    have taken := sound.waiting u was waiting
    have positive := sound.shared.waiters.positive waiting
    cases does with
    | sent t b result entering alive free =>
        rw [free] at taken
        cases taken
    | finish t writing held complete =>
        exact absurd waiting ((Waking.broadcast_asleep asleep).2 positive)
    | failed t b result entering alive free wpdu held => exact held
    | partly t b result entering alive free wpdu held unfinished mgr added => exact held
    | writeCb result alive unsent wpdu held dead size mgr returned => exact held.trans taken
    | create _ _ _ | poll _ _ _ _ | wait _ _ _ _ | refused _ _ _ _ _ | closed _ _ | close _ _ _
    | remove _ _ _ | removedFailing _ _ _ | removedClosing _ _ _ | readCb _ _ _ _ _ _ _ _ _
    | idle _ _ _ _ _ => exact taken
  · cases does with
    | wait t outside alive taken => exact taken
  · rw [stage] at writing
    cases writing

theorem Waking.Sound.writing_step (sound : w.Sound) (awake : w.awake action = true)
    (does : w.conn.Does action after) (asleep : w.sleepers after action u = true)
    (stage : after.stage u = .writing) :
    after.sender.complete = false ∨
      w.asleep u = true ∧ w.conn.stage u = .writing ∧
        (w.conn.sender.dead = true ∨ ∃ t, action = .close t) := by
  rcases Waking.sleepers_asleep does asleep with was | rfl | ⟨⟨b, result, rfl⟩, -⟩
  · have writing := (sound.stays awake does was).symm.trans stage
    have holds : (w.conn.stage u).holds = true := by
      rw [writing]
      rfl
    by_cases dead : w.conn.sender.dead = true
    · exact .inr ⟨was, writing, .inl dead⟩
    · have alive := Bool.eq_false_iff.mpr dead
      have unfinished := sound.writing u was writing alive
      have taken {q : Prop} (free : w.conn.sender.wpdu.buf = none) : q := by
        have holder := sound.shared.holder
        rw [free] at holder
        exact Bool.noConfusion (holds.symm.trans (holder.free u))
      cases does with
      | sent t b result entering alive free => exact taken free
      | failed t b result entering alive free wpdu held => exact taken free
      | partly t b result entering alive free wpdu held unfinished mgr added => exact taken free
      | finish t ends held complete =>
          have same := sound.shared.holder.unique holds (t := u) (u := t) (by rw [ends]; rfl)
          subst same
          have sleeps : (!w.asleep u) = true := awake
          rw [was] at sleeps
          cases sleeps
      | close t outside alive => exact .inr ⟨was, writing, .inr ⟨t, rfl⟩⟩
      | refused t b result entering died => exact absurd died dead
      | closed t died => exact absurd died dead
      | remove t leaving mgr => exact absurd (sound.shared.dying t leaving) dead
      | removedFailing t failing mgr => exact absurd (sound.shared.dying t (.inl failing)) dead
      | removedClosing t closing mgr => exact absurd (sound.shared.dying t (.inr closing)) dead
      | readCb stream first second takes died stays rpdu mgr returned =>
          cases died with
          | false =>
              unfold Sender.complete at unfinished
              rw [alive] at unfinished
              exact .inl unfinished
          | true =>
              have signalled : w.signal u = true := by
                dsimp only [Waking.sleepers] at asleep
                rwa [if_pos ⟨alive, rfl⟩] at asleep
              exact absurd writing (Waking.signal_asleep signalled).2
      | writeCb result alive unsent wpdu held died size mgr returned =>
          left
          by_contra complete
          rw [Bool.not_eq_false] at complete
          have signalled : w.signal u = true := by
            dsimp only [Waking.sleepers] at asleep
            rwa [if_pos ⟨unsent, complete⟩] at asleep
          exact absurd writing (Waking.signal_asleep signalled).2
      | create _ _ _ | poll _ _ _ _ | wait _ _ _ _ | idle _ _ _ _ _ => exact .inl unfinished
  · cases does with
    | wait t outside alive taken =>
        dsimp only at stage
        rw [Function.update_self] at stage
        cases stage
  · cases does with
    | partly t b result entering alive free wpdu held unfinished mgr added =>
        left
        unfold Sender.complete
        rw [Bool.or_eq_false_iff, Bool.or_eq_false_iff]
        exact ⟨⟨rfl, decide_eq_false (by dsimp only; omega)⟩, decide_eq_false (by dsimp only; omega)⟩
    | refused | sent | failed =>
        dsimp only at stage
        rw [Function.update_self] at stage
        cases stage

end Sections

/-! ### Steps -/

variable {w next : Waking Thread Handler}

theorem Waking.Sound.step (sound : w.Sound) {action : WakingAction Thread Handler}
    (taken : w.step action = some next) : next.Sound := by
  cases action with
  | conn action =>
      obtain ⟨awake, after, does, rfl⟩ := Waking.step_conn taken
      refine ⟨sound.shared.step does, ?_, ?_, ?_⟩
      · intro u asleep
        rcases Waking.sleepers_asleep does asleep with was | rfl | ⟨-, writing⟩
        · dsimp only
          rw [sound.stays awake does was]
          exact sound.places u was
        · cases does with
          | wait t outside alive taken => exact .inl (Function.update_self _ _ _)
        · exact .inr writing
      · exact fun u asleep stage => sound.waiting_step awake does asleep stage
      · intro u asleep stage alive
        rcases sound.writing_step awake does asleep stage with unfinished | ⟨was, writing, died⟩
        · exact unfinished
        · exfalso
          dsimp only at alive
          rcases died with dead | ⟨t, rfl⟩
          · exact Bool.false_ne_true (alive.symm.trans (does.dead dead))
          · cases does with
            | closed t dead => exact Bool.false_ne_true (alive.symm.trans dead)
            | close t outside live => exact Bool.false_ne_true alive.symm
  | again t =>
      obtain ⟨⟨awake, here⟩, same⟩ := Option.ite_none_right_eq_some.mp taken
      cases same
      have asleep {u : Thread} (sleeps : Function.update w.asleep t true u = true) :
          u = t ∨ w.asleep u = true := by
        by_cases same : u = t
        · exact .inl same
        · rw [Function.update_of_ne same] at sleeps
          exact .inr sleeps
      refine ⟨sound.shared, fun u sleeps => ?_, fun u sleeps stage => ?_, fun u sleeps stage alive => ?_⟩
      · rcases asleep sleeps with rfl | was
        · exact here.imp (fun waits => waits.1) (fun writes => writes.1)
        · exact sound.places u was
      · rcases asleep sleeps with rfl | was
        · rcases here with ⟨-, -, held⟩ | ⟨writing, -⟩
          · exact held
          · cases stage.symm.trans writing
        · exact sound.waiting u was stage
      · rcases asleep sleeps with rfl | was
        · rcases here with ⟨waiting, -, -⟩ | ⟨-, unfinished⟩
          · cases stage.symm.trans waiting
          · exact unfinished
        · exact sound.writing u was stage alive
  | spurious t =>
      obtain ⟨slept, same⟩ := Option.ite_none_right_eq_some.mp taken
      cases same
      have asleep {u : Thread} (sleeps : Function.update w.asleep t false u = true) :
          w.asleep u = true := by
        by_cases same : u = t
        · rw [same, Function.update_self] at sleeps
          cases sleeps
        · rwa [Function.update_of_ne same] at sleeps
      exact ⟨sound.shared, fun u sleeps => sound.places u (asleep sleeps),
        fun u sleeps => sound.waiting u (asleep sleeps),
        fun u sleeps => sound.writing u (asleep sleeps)⟩

/-! ### Runs -/

/-- Whoever sleeps will be woken: in the first loop by the thread that holds `wpdu_`, in
the second one by the loop of the poll manager, which watches for the connection. -/
def Waking.Attended (w : Waking Thread Handler) : Prop :=
  ∀ t, w.asleep t = true →
    (w.conn.stage t = .waiting ∧ ∃ u, (w.conn.stage u).holds = true) ∨
      w.conn.stage t = .writing ∧ w.conn.sender.complete = false ∧
        w.conn.mgr.aio.fds .write w.conn.fd = true ∧
        w.conn.mgr.callbacks w.conn.fd = some w.conn.this

/-- `closeconn` finds no thread asleep in the second loop of `send`. -/
def Waking.ClosesIdle (w : Waking Thread Handler) : WakingAction Thread Handler → Prop
  | .conn (.close _) => w.conn.sender.dead = false →
      ∀ t, w.asleep t = true → w.conn.stage t ≠ .writing
  | _ => True

omit [DecidableEq Thread] [DecidableEq Handler] in
theorem Waking.Sound.attended_iff (sound : w.Sound) :
    w.Attended ↔ ∀ t, w.asleep t = true → w.conn.stage t = .writing →
      w.conn.sender.dead = false := by
  constructor
  · intro attended t asleep writing
    rcases attended t asleep with ⟨waiting, -⟩ | ⟨-, unfinished, -⟩
    · cases waiting.symm.trans writing
    · exact (Sender.complete_eq_false unfinished).1
  · intro alive t asleep
    rcases sound.places t asleep with waiting | writing
    · obtain ⟨holder, some, owns⟩ := sound.shared.holder
      rw [sound.waiting t asleep waiting] at some
      obtain ⟨u, rfl⟩ := Option.isSome_iff_exists.mp some
      exact .inl ⟨waiting, u, (owns u).mpr rfl⟩
    · have live := alive t asleep writing
      exact .inr ⟨writing, sound.writing t asleep writing live,
        (sound.shared.watched live t writing).2⟩

/-- A step leaves everybody attended unless it is a `closeconn` that finds a thread
asleep in the second loop. -/
theorem Waking.Sound.attended_step (sound : w.Sound) (attended : w.Attended)
    {action : WakingAction Thread Handler} (taken : w.step action = some next) :
    next.Attended ↔ w.ClosesIdle action := by
  rw [(sound.step taken).attended_iff]
  have alive := sound.attended_iff.mp attended
  cases action with
  | conn action =>
      obtain ⟨awake, after, does, rfl⟩ := Waking.step_conn taken
      constructor
      · intro live
        cases action with
        | close t =>
            intro before u asleep writing
            have stays := sound.stays awake does asleep
            have later := live u asleep (stays.trans writing)
            cases does with
            | closed _ dead => exact Bool.false_ne_true (before.symm.trans dead)
            | close _ outside _ => exact Bool.false_ne_true later.symm
        | create | poll _ | wait _ | send _ _ _ | finish _ | remove _ | removed _
        | readCb _ _ _ _ | writeCb _ => trivial
      · intro idle u asleep writing
        rcases sound.writing_step awake does asleep writing with unfinished | ⟨was, here, died⟩
        · exact (Sender.complete_eq_false unfinished).1
        · have live := alive u was here
          rcases died with dead | ⟨t, rfl⟩
          · exact Bool.noConfusion (live.symm.trans dead)
          · exact absurd here (idle live u was)
  | again t =>
      obtain ⟨⟨-, here⟩, same⟩ := Option.ite_none_right_eq_some.mp taken
      cases same
      refine iff_of_true (fun u asleep writing => ?_) trivial
      dsimp only at asleep
      by_cases same : u = t
      · subst same
        rcases here with ⟨waiting, -, -⟩ | ⟨-, unfinished⟩
        · cases waiting.symm.trans writing
        · exact (Sender.complete_eq_false unfinished).1
      · rw [Function.update_of_ne same] at asleep
        exact alive u asleep writing
  | spurious t =>
      obtain ⟨-, same⟩ := Option.ite_none_right_eq_some.mp taken
      cases same
      refine iff_of_true (fun u asleep writing => ?_) trivial
      dsimp only at asleep
      by_cases same : u = t
      · rw [same, Function.update_self] at asleep
        cases asleep
      · rw [Function.update_of_ne same] at asleep
        exact alive u asleep writing

/-- In every state of a run each sleeping thread is attended if and only if no
`closeconn` of the run finds a thread asleep in the second loop of `send`. -/
theorem send_attended {pipefd fd : Nat} {this : Handler}
    {actions : List (WakingAction Thread Handler)} {w : Waking Thread Handler}
    (ran : run Waking.step (.start Thread pipefd fd this) actions = some w) :
    Throughout Waking.step Waking.Attended (.start Thread pipefd fd this) actions ↔
      Guarded Waking.step Waking.ClosesIdle (.start Thread pipefd fd this) actions :=
  throughout_iff_guarded (fun _w _action _next sound taken => Waking.Sound.step sound taken)
    (fun _w _action _next sound attended taken => sound.attended_step attended taken)
    (Waking.Sound.start pipefd fd this) (fun _t => nofun) ran

/-- Thread 0 has written a part of its PDU, and thread 1 waits for it. -/
def sleepingActions : List (WakingAction Nat Unit) :=
  [.conn .create, .conn (.send 0 [0, 0, 0, 0, 7] (.wrote 2)), .conn (.wait 1)]

def brokenActions : List (WakingAction Nat Unit) :=
  sleepingActions ++
    [.conn (.poll .poll), .conn (.poll .copy),
      .conn (.poll (.select (fun fd => fd == 5) (fun _ => false))), .conn (.poll .next),
      .conn (.poll .call), .conn (.readCb [] .failed .failed true), .conn (.finish 0),
      .conn (.send 1 [0, 0, 0, 0] .again)]

theorem send_attended_broken : ∃ w,
    run Waking.step (.start Nat 3 5 ()) brokenActions = some w ∧
      w.asleep 0 = false ∧ w.asleep 1 = false ∧
      Throughout Waking.step Waking.Attended (.start Nat 3 5 ()) brokenActions := by
  have idle : Guarded Waking.step Waking.ClosesIdle (.start Nat 3 5 ()) brokenActions := by
    have closes : ∀ action ∈ brokenActions, ∀ w : Waking Nat Unit, w.ClosesIdle action := by
      simp [brokenActions, sleepingActions, Waking.ClosesIdle]
    exact (Guarded.ofForall closes).mono (fun w _action holds => holds w)
  exact ⟨_, rfl, rfl, rfl, (send_attended rfl).mpr idle⟩

/-! ### After `closeconn` -/

/-- The thread sleeps in the second loop of `send` on a dead connection. -/
structure Waking.Abandoned (t : Thread) (w : Waking Thread Handler) : Prop where
  sound : w.Sound
  asleep : w.asleep t = true
  writing : w.conn.stage t = .writing
  dead : w.conn.sender.dead = true

def WakingAction.isSpurious : WakingAction Thread Handler → Bool
  | .spurious _ => true
  | _ => false

/-- While a thread is abandoned, no section wakes anybody. -/
theorem Waking.Abandoned.asleep_step {t u : Thread} (abandoned : w.Abandoned t)
    {action : WakingAction Thread Handler} (real : action.isSpurious = false)
    (taken : w.step action = some next) (asleep : w.asleep u = true) : next.asleep u = true := by
  have holds : (w.conn.stage t).holds = true := by
    rw [abandoned.writing]
    rfl
  cases action with
  | spurious u => cases real
  | again u' =>
      obtain ⟨-, same⟩ := Option.ite_none_right_eq_some.mp taken
      cases same
      dsimp only
      rw [Function.update_apply, asleep, ite_self]
  | conn action =>
      obtain ⟨awake, after, does, rfl⟩ := Waking.step_conn taken
      cases does with
      | wait _ _ alive _ | sent _ _ _ _ alive _ | failed _ _ _ _ alive _ _ _
      | partly _ _ _ _ alive _ _ _ _ _ _ | close _ _ alive | idle _ alive _ _ _
      | writeCb _ alive _ _ _ _ _ _ _ =>
          exact Bool.noConfusion (alive.symm.trans abandoned.dead)
      | finish u' ends held complete =>
          have same := abandoned.sound.shared.holder.unique (t := t) (u := u') holds
            (by rw [ends]; rfl)
          subst same
          have sleeps : (!w.asleep t) = true := awake
          rw [abandoned.asleep] at sleeps
          cases sleeps
      | refused u' b result entering dead =>
          dsimp only [Waking.sleepers]
          rw [if_neg (by rw [Function.update_self]; nofun), if_neg (by rw [dead]; simp)]
          exact asleep
      | readCb stream first second takes dead stays rpdu mgr returned =>
          dsimp only [Waking.sleepers]
          rw [if_neg (by rw [abandoned.dead]; simp)]
          exact asleep
      | create _ _ _ | poll _ _ _ _ | closed _ _ | remove _ _ _ | removedFailing _ _ _
      | removedClosing _ _ _ => exact asleep

theorem Waking.Sound.stage_step {u : Thread} (sound : w.Sound)
    {action : WakingAction Thread Handler} (taken : w.step action = some next)
    (asleep : w.asleep u = true) : next.conn.stage u = w.conn.stage u := by
  cases action with
  | conn action =>
      obtain ⟨awake, after, does, rfl⟩ := Waking.step_conn taken
      exact sound.stays awake does asleep
  | again t | spurious t =>
      obtain ⟨-, same⟩ := Option.ite_none_right_eq_some.mp taken
      cases same
      rfl

theorem Waking.dead_step {action : WakingAction Thread Handler}
    (taken : w.step action = some next) (dead : w.conn.sender.dead = true) :
    next.conn.sender.dead = true := by
  cases action with
  | conn action =>
      obtain ⟨-, after, does, rfl⟩ := Waking.step_conn taken
      exact does.dead dead
  | again t | spurious t =>
      obtain ⟨-, same⟩ := Option.ite_none_right_eq_some.mp taken
      cases same
      exact dead

theorem Waking.Abandoned.step {t : Thread} (abandoned : w.Abandoned t)
    {action : WakingAction Thread Handler} (real : action.isSpurious = false)
    (taken : w.step action = some next) : next.Abandoned t where
  sound := abandoned.sound.step taken
  asleep := abandoned.asleep_step real taken abandoned.asleep
  writing := (abandoned.sound.stage_step taken abandoned.asleep).trans abandoned.writing
  dead := Waking.dead_step taken abandoned.dead

theorem Waking.Abandoned.run {t u : Thread} {actions : List (WakingAction Thread Handler)}
    {final : Waking Thread Handler} (abandoned : w.Abandoned t)
    (real : ∀ action ∈ actions, action.isSpurious = false)
    (ran : Transition.run Waking.step w actions = some final) (asleep : w.asleep u = true) :
    final.asleep u = true ∧ final.conn.stage u = w.conn.stage u := by
  have allowed : Guarded Waking.step (fun _w action => action.isSpurious = false) w actions :=
    Guarded.ofForall real
  have preserved : ∀ (later : Waking Thread Handler) action next,
      later.Abandoned t ∧ later.asleep u = true ∧ later.conn.stage u = w.conn.stage u →
      action.isSpurious = false → later.step action = some next →
      next.Abandoned t ∧ next.asleep u = true ∧ next.conn.stage u = w.conn.stage u := by
    rintro later action next ⟨abandoned, asleep, stage⟩ real taken
    exact ⟨abandoned.step real taken, abandoned.asleep_step real taken asleep,
      (abandoned.sound.stage_step taken asleep).trans stage⟩
  exact (allowed.invariant preserved ⟨abandoned, asleep, rfl⟩ ran).2

/-- A thread that `closeconn` finds asleep in the second loop of `send` never leaves it,
and nobody who sleeps then is woken any more, unless `pthread_cond_wait` returns for
no reason. -/
theorem closeconn_abandons {pipefd fd : Nat} {this : Handler}
    (reached : Reachable Waking.step (.start Thread pipefd fd this) w) {closer t : Thread}
    (asleep : w.asleep t = true) (writing : w.conn.stage t = .writing)
    {actions : List (WakingAction Thread Handler)} {final : Waking Thread Handler}
    (real : ∀ action ∈ actions, action.isSpurious = false)
    (ran : run Waking.step w (.conn (.close closer) :: actions) = some final) :
    ∀ u, w.asleep u = true → final.asleep u = true ∧ final.conn.stage u = w.conn.stage u := by
  have sound : w.Sound :=
    Reachable.invariant (fun _w _action _next sound taken => Waking.Sound.step sound taken)
      (Waking.Sound.start pipefd fd this) reached
  intro u sleeps
  obtain ⟨next, taken, tail⟩ := run_cons_eq_some ran
  have still : ∀ v, w.asleep v = true → next.asleep v = true := by
    intro v slept
    obtain ⟨-, after, -, rfl⟩ := Waking.step_conn taken
    exact slept
  have dead : next.conn.sender.dead = true := by
    obtain ⟨-, after, does, rfl⟩ := Waking.step_conn taken
    cases does with
    | closed _ dead => exact dead
    | close _ _ _ => rfl
  have abandoned : next.Abandoned t :=
    ⟨sound.step taken, still t asleep, (sound.stage_step taken asleep).trans writing, dead⟩
  obtain ⟨later, stage⟩ := abandoned.run real tail (still u sleeps)
  exact ⟨later, stage.trans (sound.stage_step taken sleeps)⟩

/-- Thread 2 closes the connection; `block_remove_fd` returns, and nobody is left who
would wake the other two. -/
theorem closeconn_abandons_sleeping : ∃ w final,
    run Waking.step (.start Nat 3 5 ()) sleepingActions = some w ∧
      run Waking.step w (.conn (.close 2) ::
        [.conn (.remove 2), .conn (.poll .poll), .conn (.removed 2)]) = some final ∧
      w.asleep 0 = true ∧ w.asleep 1 = true ∧
      ∀ u, w.asleep u = true → final.asleep u = true ∧ final.conn.stage u = w.conn.stage u := by
  have abandons {w final : Waking Nat Unit} (reached : _ = some w) (asleep : w.asleep 0 = true)
      (writing : w.conn.stage 0 = .writing) (ran : _ = some final) :=
    @closeconn_abandons Nat Unit _ _ w 3 5 () ⟨sleepingActions, reached⟩ 2 0 asleep writing
      [.conn (.remove 2), .conn (.poll .poll), .conn (.removed 2)] final
      (by simp [WakingAction.isSpurious]) ran
  exact ⟨_, _, rfl, rfl, rfl, rfl, abandons rfl rfl rfl rfl⟩

end CseLab.Rpc
