import CseLab.Rpc.BlockRemove
import CseLab.Rpc.Pollers

/-! The pipe of `SelectAIO`. A thread that changes what `select` should wait for
writes a byte, and the loop reads one byte for each return of `select`. -/

namespace CseLab.Rpc

open Transition

variable {Thread Handler : Type*}

/-- The manager, and how many bytes are in the pipe. -/
structure WakePoll (Thread Handler : Type*) where
  mgr : PollMgr Thread Handler
  pipe : Nat

def WakePoll.start (Thread Handler : Type*) (pipefd : Nat) : WakePoll Thread Handler :=
  { mgr := .start Thread Handler pipefd, pipe := 0 }

/-- The bytes that an action writes: `watch_fd` one, and `unwatch_fd` one for `CB_RDWR`. -/
def MgrAction.writes : MgrAction Thread Handler → Nat
  | .addCallback _ _ _ => 1
  | .delCallback _ .rdwr => 1
  | .blockRemoveFd _ _ => 1
  | _ => 0

def pipeSelected (pipefd high pipe : Nat) (trfds twfds : Nat → Bool) : Bool :=
  (List.range (high + 1)).all (fun fd => !trfds fd && !twfds fd) ||
    trfds pipefd == decide (0 < pipe)

/-- What an action leaves in the pipe; none where it waits for the pipe, or where the
loop reads from an empty one. -/
def WakePoll.pipeAfter (w : WakePoll Thread Handler) :
    MgrAction Thread Handler → Option Nat
  | .select trfds twfds =>
      match w.mgr.loop with
      | .selecting _ _ high =>
          if pipeSelected w.mgr.aio.pipefd high w.pipe trfds twfds then
            if trfds w.mgr.aio.pipefd = true ∧ w.mgr.aio.pipefd ≤ high then
              if w.pipe = 0 then none else some (w.pipe - 1)
            else some w.pipe
          else none
      | _ => none
  | action => some (w.pipe + action.writes)

variable {w after : WakePoll Thread Handler} {action : MgrAction Thread Handler}

/-! ### The invariant -/

def LoopPhase.Polling : LoopPhase → Prop
  | .copying | .selecting _ _ _ => True
  | _ => False

/-- What the loop has not seen yet keeps the pipe from being empty. -/
structure WakePoll.Awake (w : WakePoll Thread Handler) : Prop where
  covered : w.mgr.aio.Covered
  waiting : ∀ t fd, w.mgr.removers t = .waiting fd → w.mgr.pendingChange = true
  pending : w.mgr.loop.Polling → w.mgr.pendingChange = true → 0 < w.pipe
  asks : ∀ rfds wfds high, w.mgr.loop = .selecting rfds wfds high →
    rfds w.mgr.aio.pipefd = true ∧ w.mgr.aio.pipefd ≤ high
  shown : ∀ rfds wfds high, w.mgr.loop = .selecting rfds wfds high → w.pipe = 0 →
    ∀ kind fd, w.mgr.aio.fds kind fd = true → kind.pick rfds wfds fd = true ∧ fd ≤ high

theorem WakePoll.Awake.start (pipefd : Nat) : (WakePoll.start Thread Handler pipefd).Awake where
  covered := SelectAio.covered_start pipefd
  waiting := fun _t _fd => nofun
  pending := fun polling => polling.elim
  asks := fun _rfds _wfds _high => nofun
  shown := fun _rfds _wfds _high => nofun

theorem WakePoll.Awake.written (awake : w.Awake) (covered : after.mgr.aio.Covered)
    (same : after.mgr.aio.pipefd = w.mgr.aio.pipefd) (loop : after.mgr.loop = w.mgr.loop)
    (waiting : ∀ t fd, after.mgr.removers t = .waiting fd → after.mgr.pendingChange = true)
    (pipe : after.pipe = w.pipe + 1) : after.Awake where
  covered := covered
  waiting := waiting
  pending := fun _polling _pending => by omega
  asks := by
    rw [loop, same]
    exact awake.asks
  shown := fun _rfds _wfds _high _here empty => by omega

theorem WakePoll.Awake.quiet (awake : w.Awake) (covered : after.mgr.aio.Covered)
    (same : after.mgr.aio.pipefd = w.mgr.aio.pipefd) (loop : after.mgr.loop = w.mgr.loop)
    (waiting : ∀ t fd, after.mgr.removers t = .waiting fd → w.mgr.removers t = .waiting fd)
    (pending : after.mgr.pendingChange = w.mgr.pendingChange)
    (fewer : ∀ kind fd, after.mgr.aio.fds kind fd = true → w.mgr.aio.fds kind fd = true)
    (pipe : after.pipe = w.pipe) : after.Awake where
  covered := covered
  waiting := fun t fd here => pending ▸ awake.waiting t fd (waiting t fd here)
  pending := by
    rw [loop, pending, pipe]
    exact awake.pending
  asks := by
    rw [loop, same]
    exact awake.asks
  shown := by
    rw [loop, pipe]
    intro rfds wfds high here empty kind fd asked
    exact awake.shown rfds wfds high here empty kind fd (fewer kind fd asked)

theorem WakePoll.Awake.returned (awake : w.Awake) (aio : after.mgr.aio = w.mgr.aio)
    (removers : after.mgr.removers = w.mgr.removers)
    (pending : after.mgr.pendingChange = w.mgr.pendingChange)
    (outside : ¬after.mgr.loop.Polling) : after.Awake where
  covered := aio ▸ awake.covered
  waiting := by
    rw [removers, pending]
    exact awake.waiting
  pending := fun polling => absurd polling outside
  asks := fun rfds wfds high here => absurd (by rw [here]; trivial) outside
  shown := fun rfds wfds high here => absurd (by rw [here]; trivial) outside

theorem SelectAio.fds_of_unwatchFd {aio : SelectAio} {fd other : Nat} {flag : PollFlag}
    {kind : Callback} (asked : (aio.unwatchFd fd flag).2.fds kind other = true) :
    aio.fds kind other = true := by
  by_contra unasked
  rw [Bool.not_eq_true] at unasked
  exact Bool.false_ne_true ((SelectAio.fds_unwatchFd_false unasked fd flag).symm.trans asked)

theorem PollMgr.advance_not_polling (p : PollMgr Thread Handler) (readable writable : List Nat) :
    ¬(p.advance readable writable).Polling := by
  unfold PollMgr.advance PollMgr.check
  split
  · split <;> exact id
  · split <;> exact id
  · exact id

/-! ### Steps -/

variable [DecidableEq Thread] [DecidableEq Handler]

/-- No connection has the descriptor of the pipe. -/
def WakePoll.step (w : WakePoll Thread Handler) (action : MgrAction Thread Handler) :
    Option (WakePoll Thread Handler) :=
  if action.spares w.mgr.aio.pipefd then
    (w.mgr.step action).bind fun mgr =>
      (w.pipeAfter action).map fun pipe => { mgr := mgr, pipe := pipe }
  else none

theorem WakePoll.step_cases (taken : w.step action = some after) :
    action.spares w.mgr.aio.pipefd = true ∧ w.mgr.step action = some after.mgr ∧
      w.pipeAfter action = some after.pipe := by
  obtain ⟨spares, ran⟩ := Option.ite_none_right_eq_some.mp taken
  obtain ⟨mgr, stepped, rest⟩ := Option.bind_eq_some_iff.mp ran
  obtain ⟨pipe, left, rfl⟩ := Option.map_eq_some_iff.mp rest
  exact ⟨spares, stepped, left⟩

theorem WakePoll.Awake.step (awake : w.Awake) (taken : w.step action = some after) :
    after.Awake := by
  obtain ⟨spares, stepped, left⟩ := WakePoll.step_cases taken
  obtain ⟨mgr, pipe⟩ := after
  dsimp only at stepped left
  cases PollMgr.step_takes stepped with
  | addCallback fd flag ch free =>
      exact awake.written (SelectAio.covered_watchFd awake.covered fd flag) rfl rfl awake.waiting
        (Option.some.inj left).symm
  | delCallback fd flag free =>
      have covered := SelectAio.covered_unwatchFd awake.covered flag (of_decide_eq_true spares)
      cases flag with
      | rdwr => exact awake.written covered rfl rfl awake.waiting (Option.some.inj left).symm
      | rdonly | wronly =>
          exact awake.quiet covered rfl rfl (fun _t _fd here => here) rfl
            (fun _kind _fd asked => SelectAio.fds_of_unwatchFd asked) (Option.some.inj left).symm
  | set fd ch owed | clear fd owed =>
      exact awake.quiet awake.covered rfl rfl (fun _t _fd here => here) rfl
        (fun _kind _fd asked => asked) (Option.some.inj left).symm
  | blockRemoveFd t fd outside =>
      exact awake.written
        (SelectAio.covered_unwatchFd awake.covered .rdwr (of_decide_eq_true spares)) rfl rfl
        (fun _t _fd _here => rfl) (Option.some.inj left).symm
  | removed t fd woken =>
      refine awake.quiet awake.covered rfl rfl ?_ rfl (fun _kind _fd asked => asked)
        (Option.some.inj left).symm
      intro other fd here
      dsimp only at here
      by_cases same : other = t
      · rw [same, Function.update_self] at here
        cases here
      · rwa [Function.update_of_ne same] at here
  | poll here =>
      -- every remover that waits is woken, whether or not anything was pending
      refine ⟨awake.covered, ?_, fun _polling pending => (nomatch pending), fun _rfds _wfds _high =>
        nofun, fun _rfds _wfds _high => nofun⟩
      intro t fd here
      dsimp only at here
      cases pending : w.mgr.pendingChange with
      | true =>
          rw [pending, if_pos rfl] at here
          cases was : w.mgr.removers t <;> rw [was] at here <;> cases here
      | false =>
          rw [pending, if_neg Bool.false_ne_true] at here
          rw [awake.waiting t fd here] at pending
          cases pending
  | copy here =>
      have same := Option.some.inj left
      refine ⟨awake.covered, awake.waiting, ?_, ?_, ?_⟩
      · intro _polling pending
        have unseen := awake.pending (by rw [here]; trivial) pending
        rw [← same]
        exact Nat.lt_add_right _ unseen
      · rintro rfds wfds high ⟨⟩
        exact ⟨awake.covered.pipe, awake.covered.high.2 (.inl awake.covered.pipe)⟩
      · rintro rfds wfds high ⟨⟩ _empty kind fd asked
        exact ⟨by cases kind <;> exact asked,
          awake.covered.high.2 (SelectAio.mem_watched.mpr ⟨kind, asked⟩)⟩
  | select rfds wfds trfds twfds high here reads writes =>
      exact awake.returned rfl rfl rfl id
  | next readable writable here =>
      exact awake.returned rfl rfl rfl (PollMgr.advance_not_polling _ _ _)
  | call kind fd readable writable here present => exact awake.returned rfl rfl rfl id
  | done kind fd readable writable here => exact awake.returned rfl rfl rfl id

theorem WakePoll.Awake.of_reachable {pipefd : Nat}
    (reached : Reachable WakePoll.step (.start Thread Handler pipefd) w) : w.Awake :=
  Reachable.invariant (fun _w _action _next awake taken => WakePoll.Awake.step awake taken)
    (WakePoll.Awake.start pipefd) reached

/-- While `select` waits with an empty pipe it waits for every descriptor that is
watched, in each direction, and no thread waits in `block_remove_fd`. -/
theorem select_misses_nothing {pipefd : Nat}
    (reached : Reachable WakePoll.step (.start Thread Handler pipefd) w)
    {rfds wfds : Nat → Bool} {high : Nat} (here : w.mgr.loop = .selecting rfds wfds high)
    (empty : w.pipe = 0) :
    (∀ kind fd, w.mgr.aio.fds kind fd = true → kind.pick rfds wfds fd = true ∧ fd ≤ high) ∧
      ∀ t fd, w.mgr.removers t ≠ .waiting fd := by
  have awake := WakePoll.Awake.of_reachable reached
  refine ⟨awake.shown rfds wfds high here empty, ?_⟩
  intro t fd waiting
  have unread := awake.pending (by rw [here]; trivial) (awake.waiting t fd waiting)
  omega

def selectingActions : List (MgrAction Bool Unit) :=
  [.addCallback 5 .rdonly (), .store, .poll, .copy, .select (fun fd => fd == 3) (fun _ => false),
    .next, .poll, .copy]

theorem select_misses_nothing_added : ∃ (w : WakePoll Bool Unit) (rfds wfds : Nat → Bool),
    run WakePoll.step (.start Bool Unit 3) selectingActions = some w ∧
      w.mgr.loop = .selecting rfds wfds 5 ∧ w.mgr.aio.fds .read 5 = true ∧
      (∀ kind fd, w.mgr.aio.fds kind fd = true → kind.pick rfds wfds fd = true ∧ fd ≤ 5) ∧
      ∀ t fd, w.mgr.removers t ≠ .waiting fd := by
  have shown {w : WakePoll Bool Unit} {rfds wfds : Nat → Bool} (ran : _ = some w)
      (here : w.mgr.loop = .selecting rfds wfds 5) (empty : w.pipe = 0) :=
    @select_misses_nothing Bool Unit w _ _ 3 ⟨selectingActions, ran⟩ rfds wfds 5 here empty
  exact ⟨_, _, _, rfl, rfl, rfl, shown rfl rfl rfl⟩

/-! ### How long a removal takes -/

def MgrAction.ofLoop : MgrAction Thread Handler → Bool
  | .poll | .copy | .select _ _ | .next | .call | .done => true
  | _ => false

/-- How many actions the loop takes at most before it broadcasts, if `select` looks at
fewer than `limit` descriptors. -/
def LoopPhase.rank (limit : Nat) : LoopPhase → Nat
  | .head => 0
  | .copying => 6 * limit + 3
  | .selecting _ _ _ => 6 * limit + 2
  | .calling readable writable => 3 * (readable.length + writable.length) + 1
  | .checked _ _ readable writable => 3 * (readable.length + writable.length) + 3
  | .running _ _ readable writable => 3 * (readable.length + writable.length) + 2

section Rank

omit [DecidableEq Handler]

variable {p next : PollMgr Thread Handler} {limit : Nat}

theorem ready_length (pipefd high : Nat) (kind : Callback) (trfds twfds : Nat → Bool) :
    (ready pipefd high kind trfds twfds).length ≤ high + 1 := by
  have shorter := List.length_filter_le
    (fun fd => kind.pick trfds twfds fd && !(decide (fd = pipefd) && trfds fd))
    (List.range (high + 1))
  rwa [List.length_range] at shorter

omit [DecidableEq Thread] in
theorem PollMgr.rank_check (p : PollMgr Thread Handler) (limit : Nat) (kind : Callback) (fd : Nat)
    (readable writable : List Nat) :
    (p.check kind fd readable writable).rank limit ≤
      3 * (readable.length + writable.length) + 3 := by
  unfold PollMgr.check
  split
  · exact Nat.le_refl _
  · dsimp only [LoopPhase.rank]
    omega

omit [DecidableEq Thread] in
theorem PollMgr.rank_advance (p : PollMgr Thread Handler) (limit : Nat)
    (readable writable : List Nat) :
    (p.advance readable writable).rank limit ≤ 3 * (readable.length + writable.length) := by
  cases readable with
  | cons fd readable =>
      have checked := p.rank_check limit .read fd readable writable
      rw [List.length_cons]
      exact checked.trans (by omega)
  | nil =>
      cases writable with
      | cons fd writable =>
          have checked := p.rank_check limit .write fd [] writable
          rw [List.length_cons]
          exact checked.trans (by omega)
      | nil => exact Nat.le_refl 0

/-- But for the section at its head, each action of the loop brings it nearer to the next. -/
theorem PollMgr.Takes.rank (takes : p.Takes action next)
    (high : ∀ rfds wfds high, p.loop = .selecting rfds wfds high → high < limit) :
    next.loop.rank limit + (if action.ofLoop = true then 1 else 0) ≤ p.loop.rank limit ∨
      action = .poll ∧ next.loop.rank limit = 6 * limit + 3 := by
  cases takes with
  | addCallback _ _ _ _ | delCallback _ _ _ | set _ _ _ | clear _ _ | blockRemoveFd _ _ _
  | removed _ _ _ => exact .inl (Nat.le_refl _)
  | poll here => exact .inr ⟨rfl, rfl⟩
  | select rfds wfds trfds twfds bound here reads writes =>
      have fits := high rfds wfds bound here
      have readable := ready_length p.aio.pipefd bound .read trfds twfds
      have writable := ready_length p.aio.pipefd bound .write trfds twfds
      left
      rw [here]
      change 3 * (_ + _) + 1 + 1 ≤ 6 * limit + 2
      omega
  | next readable writable here =>
      have advanced := p.rank_advance limit readable writable
      left
      rw [here]
      exact Nat.succ_le_succ advanced
  | copy here | call kind fd readable writable here _ | done kind fd readable writable here =>
      left
      rw [here]
      exact Nat.le_refl _

end Rank

structure WakePoll.Below (limit : Nat) (w : WakePoll Thread Handler) : Prop where
  high : w.mgr.aio.highfds < limit
  selecting : ∀ rfds wfds high, w.mgr.loop = .selecting rfds wfds high → high < limit
  rank : w.mgr.loop.rank limit ≤ 6 * limit + 3

theorem SelectAio.highfds_unwatchFd {aio : SelectAio} (covered : aio.Covered) {fd : Nat}
    (flag : PollFlag) (notPipe : fd ≠ aio.pipefd) :
    (aio.unwatchFd fd flag).2.highfds ≤ aio.highfds := by
  have after := SelectAio.covered_unwatchFd covered flag notPipe
  obtain ⟨kind, asked⟩ := SelectAio.mem_watched.mp after.high.1
  exact covered.high.2 (SelectAio.mem_watched.mpr ⟨kind, SelectAio.fds_of_unwatchFd asked⟩)

theorem WakePoll.Below.step {limit : Nat} (many : maxPollFds ≤ limit) (below : w.Below limit)
    (awake : w.Awake) (taken : w.step action = some after) : after.Below limit := by
  obtain ⟨spares, stepped, -⟩ := WakePoll.step_cases taken
  have takes := PollMgr.step_takes stepped
  have rank : after.mgr.loop.rank limit ≤ 6 * limit + 3 := by
    rcases takes.rank below.selecting with nearer | ⟨-, most⟩
    · exact (Nat.le_add_right _ _).trans (nearer.trans below.rank)
    · exact most.le
  have inside : ∀ fd flag ch, action = .addCallback fd flag ch → fd < maxPollFds := by
    rintro fd flag ch rfl
    exact (Option.ite_none_right_eq_some.mp stepped).1.2
  obtain ⟨mgr, pipe⟩ := after
  dsimp only at stepped rank takes
  cases takes with
  | addCallback fd flag ch free =>
      refine ⟨?_, below.selecting, rank⟩
      have fits := inside fd flag ch rfl
      have high := below.high
      change (if w.mgr.aio.highfds ≤ fd then fd else w.mgr.aio.highfds) < limit
      split <;> omega
  | delCallback fd flag free =>
      exact ⟨(SelectAio.highfds_unwatchFd awake.covered flag (of_decide_eq_true spares)).trans_lt
        below.high, below.selecting, rank⟩
  | blockRemoveFd t fd outside =>
      exact ⟨(SelectAio.highfds_unwatchFd awake.covered .rdwr (of_decide_eq_true spares)).trans_lt
        below.high, below.selecting, rank⟩
  | set fd ch owed | clear fd owed | removed t fd woken =>
      exact ⟨below.high, below.selecting, rank⟩
  | copy here =>
      refine ⟨below.high, ?_, rank⟩
      rintro rfds wfds high ⟨⟩
      exact below.high
  | next readable writable here =>
      refine ⟨below.high, fun rfds wfds high selecting => ?_, rank⟩
      dsimp only at selecting
      exact absurd (by rw [selecting]; trivial) (w.mgr.advance_not_polling readable writable)
  | poll here | select _ _ _ _ _ here _ _ | call _ _ _ _ here _ | done _ _ _ _ here =>
      exact ⟨below.high, fun _rfds _wfds _high => nofun, rank⟩

omit [DecidableEq Handler] in
theorem PollMgr.Takes.wakes {p next : PollMgr Thread Handler} {t : Thread} {fd : Nat}
    (takes : p.Takes .poll next) (pending : p.pendingChange = true)
    (before : p.removers t = .waiting fd) : next.removers t = .woken fd := by
  cases takes with
  | poll here =>
      dsimp only
      rw [pending, if_pos rfl, before]
      rfl

end CseLab.Rpc
