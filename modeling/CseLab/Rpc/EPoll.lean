import CseLab.Rpc.Pollers

/-! `EPollAIO` beside `SelectAIO`. What the callers asked for is a map from
descriptors to directions; both pollers follow it, and `is_watched` of
`EPollAIO` does not read it. -/

namespace CseLab.Rpc

open Transition

/-! ### Allowed calls -/

/-- A caller names a descriptor of its own, and gives up only what it watches. -/
def PollCall.Allowed (pipefd : Nat) (asked : Interest) : PollCall → Prop
  | .watch fd _ => fd < maxPollFds ∧ fd ≠ pipefd
  | .unwatch fd _ => (fd < maxPollFds ∧ fd ≠ pipefd) ∧ ∃ kind, asked fd kind = true

def AllowedFrom (pipefd : Nat) : Interest → List PollCall → Prop :=
  Guarded (fun asked call => some (asked.call call)) (PollCall.Allowed pipefd)

/-! ### `EPollAIO` -/

def epollin : BitVec 32 := 0x1

def epollout : BitVec 32 := 0x4

def epollet : BitVec 32 := 0x80000000

inductive EpollOp where
  | add
  | mod
  | del
deriving DecidableEq

abbrev Registered := Nat → Option (BitVec 32)

/-- `epoll_ctl`, which fails when the descriptor is not registered as `op` needs. -/
def epollCtl (registered : Registered) (op : EpollOp) (fd : Nat) (events : BitVec 32) :
    Option Registered :=
  match op, registered fd with
  | .add, none => some (Function.update registered fd (some events))
  | .mod, some _ => some (Function.update registered fd (some events))
  | .del, some _ => some (Function.update registered fd none)
  | _, _ => none

section

variable {registered : Registered} {fd : Nat} {old : BitVec 32} (events : BitVec 32)

theorem epollCtl_add (missing : registered fd = none) :
    epollCtl registered .add fd events = some (Function.update registered fd (some events)) := by
  simp only [epollCtl, missing]

theorem epollCtl_mod (present : registered fd = some old) :
    epollCtl registered .mod fd events = some (Function.update registered fd (some events)) := by
  simp only [epollCtl, present]

theorem epollCtl_del (present : registered fd = some old) :
    epollCtl registered .del fd events = some (Function.update registered fd none) := by
  simp only [epollCtl, present]

end

structure EPollAio where
  fdstatus : Nat → BitVec 32
  registered : Registered

def statusEvents (status : BitVec 32) : BitVec 32 :=
  let events := epollet
  let events := if status &&& cbRdonly ≠ 0 then events ||| epollin else events
  if status &&& cbWronly ≠ 0 then events ||| epollout else events

namespace EPollAio

def start : EPollAio := { fdstatus := fun _ => 0, registered := fun _ => none }

/-- `watch_fd`; `none` is a `VERIFY` that fails. -/
def watch (aio : EPollAio) (fd : Nat) (flag : BitVec 32) : Option EPollAio :=
  if maxPollFds ≤ fd then none
  else
    let op := if aio.fdstatus fd ≠ 0 then EpollOp.mod else .add
    let status := aio.fdstatus fd ||| flag
    if flag = cbRdwr ∧ statusEvents status ≠ epollet ||| epollin ||| epollout then none
    else
      (epollCtl aio.registered op fd (statusEvents status)).map
        (fun registered =>
          { fdstatus := Function.update aio.fdstatus fd status, registered := registered })

def unwatch (aio : EPollAio) (fd : Nat) (flag : BitVec 32) : Option (Bool × EPollAio) :=
  if maxPollFds ≤ fd then none
  else
    let status := aio.fdstatus fd &&& ~~~flag
    let op := if status ≠ 0 then EpollOp.mod else .del
    if flag = cbRdwr ∧ op ≠ .del then none
    else
      (epollCtl aio.registered op fd (statusEvents status)).map
        (fun registered =>
          (decide (op = .del),
            { fdstatus := Function.update aio.fdstatus fd status, registered := registered }))

def isWatched (aio : EPollAio) (fd : Nat) (flag : BitVec 32) : Option Bool :=
  if maxPollFds ≤ fd then none else some (decide (aio.fdstatus fd &&& cbMask = flag))

/-- What `epoll_wait` may report of a descriptor. -/
def interest (aio : EPollAio) (kind : Callback) (fd : Nat) : Bool :=
  match aio.registered fd with
  | none => false
  | some events => decide (events &&& kind.pick epollin epollout ≠ 0)

end EPollAio

/-! ### The status word -/

def statusOf (asked : Callback → Bool) : BitVec 32 :=
  (bif asked .read then cbRdonly else 0) ||| (bif asked .write then cbWronly else 0)

theorem statusOf_added (asked : Callback → Bool) (direction : PollFlag) :
    statusOf (direction.added asked) = statusOf asked ||| direction.code := by
  simp only [statusOf, PollFlag.added]
  cases direction <;> cases asked .read <;> cases asked .write <;> rfl

theorem statusOf_removed (asked : Callback → Bool) (direction : PollFlag) :
    statusOf (direction.removed asked) = statusOf asked &&& ~~~direction.code := by
  simp only [statusOf, PollFlag.removed]
  cases direction <;> cases asked .read <;> cases asked .write <;> rfl

theorem statusOf_eq_zero {asked : Callback → Bool} :
    statusOf asked = 0 ↔ asked .read = false ∧ asked .write = false := by
  unfold statusOf
  cases asked .read <;> cases asked .write <;> decide

theorem statusOf_ne_zero {asked : Callback → Bool} (kind : Callback)
    (watched : asked kind = true) : statusOf asked ≠ 0 := by
  rw [Ne, statusOf_eq_zero]
  rintro ⟨reading, writing⟩
  cases kind with
  | read => exact Bool.false_ne_true (reading.symm.trans watched)
  | write => exact Bool.false_ne_true (writing.symm.trans watched)

theorem statusEvents_statusOf (asked : Callback → Bool) (kind : Callback) :
    decide (statusEvents (statusOf asked) &&& kind.pick epollin epollout ≠ 0) = asked kind := by
  unfold statusOf
  cases kind with
  | read => cases asked .read <;> cases asked .write <;> rfl
  | write => cases asked .read <;> cases asked .write <;> rfl

/-- The mask drops the very bits that a flag consists of. -/
theorem and_cbMask_ne (status : BitVec 32) (direction : PollFlag) :
    status &&& cbMask ≠ direction.code := by
  intro same
  have bits := congrArg (· &&& cbRdwr) same
  change status &&& cbMask &&& cbRdwr = direction.code &&& cbRdwr at bits
  have apart : cbMask &&& cbRdwr = 0#32 := by decide
  rw [BitVec.and_assoc, apart, BitVec.and_zero] at bits
  cases direction <;> exact absurd bits (by decide)

theorem EPollAio.isWatched_code (aio : EPollAio) {fd : Nat} (below : fd < maxPollFds)
    (direction : PollFlag) : aio.isWatched fd direction.code = some false := by
  unfold EPollAio.isWatched
  rw [if_neg (Nat.not_le_of_lt below), decide_eq_false (and_cbMask_ne _ direction)]

/-! ### The pollers follow what was asked for -/

def registrationOf (asked : Callback → Bool) : Option (BitVec 32) :=
  if statusOf asked = 0 then none else some (statusEvents (statusOf asked))

structure EPollAio.Shows (aio : EPollAio) (asked : Interest) : Prop where
  fdstatus : ∀ fd, aio.fdstatus fd = statusOf (asked fd)
  registered : ∀ fd, aio.registered fd = registrationOf (asked fd)

namespace EPollAio

variable {aio : EPollAio} {asked : Interest} {fd : Nat}

def set (aio : EPollAio) (fd : Nat) (directions : Callback → Bool) : EPollAio :=
  { fdstatus := Function.update aio.fdstatus fd (statusOf directions)
    registered := Function.update aio.registered fd (registrationOf directions) }

theorem Shows.set (shown : aio.Shows asked) (fd : Nat) (directions : Callback → Bool) :
    (aio.set fd directions).Shows (Function.update asked fd directions) := by
  constructor
  · intro other
    by_cases same : other = fd
    · subst same
      simp only [EPollAio.set, Function.update_self]
    · simp only [EPollAio.set, Function.update_of_ne same, shown.fdstatus other]
  · intro other
    by_cases same : other = fd
    · subst same
      simp only [EPollAio.set, Function.update_self]
    · simp only [EPollAio.set, Function.update_of_ne same, shown.registered other]

theorem Shows.interest (shown : aio.Shows asked) (kind : Callback) (fd : Nat) :
    aio.interest kind fd = asked fd kind := by
  unfold EPollAio.interest
  rw [shown.registered fd, registrationOf]
  by_cases idle : statusOf (asked fd) = 0
  · rw [if_pos idle]
    have none := statusOf_eq_zero.mp idle
    cases kind with
    | read => exact none.1.symm
    | write => exact none.2.symm
  · rw [if_neg idle]
    exact statusEvents_statusOf (asked fd) kind

theorem Shows.watch_eq (shown : aio.Shows asked) (below : fd < maxPollFds)
    (direction : PollFlag) :
    aio.watch fd direction.code = some (aio.set fd (direction.added (asked fd))) := by
  obtain ⟨kind, covered⟩ := direction.covers_some
  have nonzero : statusOf (direction.added (asked fd)) ≠ 0 :=
    statusOf_ne_zero kind (by rw [PollFlag.added, covered, Bool.or_true])
  have checked : ¬(direction.code = cbRdwr ∧ statusEvents (statusOf (direction.added (asked fd))) ≠
      epollet ||| epollin ||| epollout) := by
    rw [statusOf_added]
    unfold statusOf
    cases direction <;> cases asked fd .read <;> cases asked fd .write <;> decide
  have registered := shown.registered fd
  unfold EPollAio.watch EPollAio.set
  rw [if_neg (Nat.not_le_of_lt below), registrationOf, if_neg nonzero]
  simp only [shown.fdstatus fd, ← statusOf_added]
  rw [if_neg checked]
  unfold registrationOf at registered
  by_cases idle : statusOf (asked fd) = 0
  · rw [if_pos idle] at registered
    rw [if_neg (not_not_intro idle), epollCtl_add _ registered, Option.map_some]
  · rw [if_neg idle] at registered
    rw [if_pos idle, epollCtl_mod _ registered, Option.map_some]

theorem Shows.unwatch_eq (shown : aio.Shows asked) (below : fd < maxPollFds) {kind : Callback}
    (watched : asked fd kind = true) (direction : PollFlag) :
    aio.unwatch fd direction.code =
      some (decide (statusOf (direction.removed (asked fd)) = 0),
        aio.set fd (direction.removed (asked fd))) := by
  have nonzero := statusOf_ne_zero kind watched
  have checked : direction.code = cbRdwr → statusOf (direction.removed (asked fd)) = 0 := by
    rw [statusOf_removed]
    unfold statusOf
    cases direction <;> cases asked fd .read <;> cases asked fd .write <;> decide
  have registered := shown.registered fd
  rw [registrationOf, if_neg nonzero] at registered
  unfold EPollAio.unwatch EPollAio.set registrationOf
  rw [if_neg (Nat.not_le_of_lt below)]
  simp only [shown.fdstatus fd, ← statusOf_removed]
  by_cases idle : statusOf (direction.removed (asked fd)) = 0
  · rw [if_neg (not_not_intro idle), if_neg (fun both => both.2 rfl), epollCtl_del _ registered,
      Option.map_some, decide_eq_true rfl, decide_eq_true idle, if_pos idle]
  · rw [if_pos idle, if_neg (fun both => idle (checked both.1)), epollCtl_mod _ registered,
      Option.map_some, decide_eq_false (by decide), decide_eq_false idle, if_neg idle]

end EPollAio

namespace SelectAio

variable {aio : SelectAio} {pipefd fd : Nat} {asked : Interest}

theorem Shows.unwatchFd_fst (shown : aio.Shows pipefd asked) (notPipe : fd ≠ pipefd)
    (direction : PollFlag) :
    (aio.unwatchFd fd direction).1 = decide (statusOf (direction.removed (asked fd)) = 0) := by
  have after := (shown.unwatchFd fd direction).fds fd notPipe
  rw [Function.update_self] at after
  have reading := after .read
  have writing := after .write
  change (!(aio.unwatchFd fd direction).2.fds .read fd &&
    !(aio.unwatchFd fd direction).2.fds .write fd) = _
  rw [reading, writing]
  apply Bool.eq_iff_iff.mpr
  rw [decide_eq_true_iff, statusOf_eq_zero, Bool.and_eq_true, Bool.not_eq_true', Bool.not_eq_true']

theorem Shows.isWatched (shown : aio.Shows pipefd asked) (notPipe : fd ≠ pipefd)
    (direction : PollFlag) : aio.isWatched fd direction.code = true ↔
      ∀ kind, direction.covers kind = true → asked fd kind = true := by
  have reading := shown.fds fd notPipe .read
  have writing := shown.fds fd notPipe .write
  change aio.rfds fd = asked fd .read at reading
  change aio.wfds fd = asked fd .write at writing
  have every : (∀ kind, direction.covers kind = true → asked fd kind = true) ↔
      (direction.covers .read = true → asked fd .read = true) ∧
        (direction.covers .write = true → asked fd .write = true) := by
    constructor
    · exact fun holds => ⟨holds .read, holds .write⟩
    · intro holds kind
      cases kind with
      | read => exact holds.1
      | write => exact holds.2
  unfold SelectAio.isWatched
  rw [every, watchFlag_code]
  cases direction with
  | rdonly => simp [PollFlag.covers, reading]
  | wronly => simp [PollFlag.covers, writing]
  | rdwr => simp [PollFlag.covers, reading, writing]

end SelectAio

/-! ### One sequence of calls on both -/

/-- The two pollers, and what their calls of `unwatch_fd` have returned, the last one
first. -/
structure Pollers where
  select : SelectAio
  epoll : EPollAio
  selectReturns : List Bool
  epollReturns : List Bool

namespace Pollers

def start (pipefd : Nat) : Pollers :=
  { select := .start pipefd, epoll := .start, selectReturns := [], epollReturns := [] }

def call (p : Pollers) : PollCall → Option Pollers
  | .watch fd flag => do
      let epoll ← p.epoll.watch fd flag
      some { p with select := p.select.watch fd flag, epoll := epoll }
  | .unwatch fd flag => do
      let (selectReturn, select) ← p.select.unwatch fd flag
      let (epollReturn, epoll) ← p.epoll.unwatch fd flag
      some
        { select := select
          epoll := epoll
          selectReturns := selectReturn :: p.selectReturns
          epollReturns := epollReturn :: p.epollReturns }

/-- No caller can tell the pollers apart. -/
structure Agree (p : Pollers) : Prop where
  interest : ∀ fd, fd ≠ p.select.pipefd → ∀ kind, p.select.fds kind fd = p.epoll.interest kind fd
  returns : p.selectReturns = p.epollReturns
  isWatched : ∀ fd, fd < maxPollFds → fd ≠ p.select.pipefd → ∀ direction : PollFlag,
    p.epoll.isWatched fd direction.code = some (p.select.isWatched fd direction.code)

structure Shows (p : Pollers) (pipefd : Nat) (asked : Interest) : Prop where
  select : p.select.Shows pipefd asked
  epoll : p.epoll.Shows asked
  returns : p.selectReturns = p.epollReturns

variable {p : Pollers} {pipefd : Nat} {asked : Interest}

theorem shows_start (pipefd : Nat) : (start pipefd).Shows pipefd .nothing := by
  constructor
  · exact SelectAio.Shows.start pipefd
  · have idle : statusOf (fun _kind => false) = 0 := by decide
    exact ⟨fun _fd => idle.symm, fun _fd => (if_pos idle).symm⟩
  · rfl

theorem Shows.call (shown : p.Shows pipefd asked) {c : PollCall} (allowed : c.Allowed pipefd asked)
    {direction : PollFlag} (flag : c.flag = direction.code) :
    ∃ next, p.call c = some next ∧ next.Shows pipefd (asked.call c) := by
  cases c with
  | watch fd word =>
      have word : word = direction.code := flag
      subst word
      have select := shown.select.watch fd direction.code
      have epoll := shown.epoll.set fd (direction.added (asked fd))
      have watched : asked.call (.watch fd direction.code) =
          Function.update asked fd (direction.added (asked fd)) := by
        rw [Interest.call, watchFlag_code]
      rw [Pollers.call, shown.epoll.watch_eq allowed.1 direction]
      exact ⟨_, rfl, select, watched ▸ epoll, shown.returns⟩
  | unwatch fd word =>
      have word : word = direction.code := flag
      subst word
      rcases allowed with ⟨⟨below, notPipe⟩, kind, asks⟩
      have select := shown.select.unwatchFd fd direction
      have epoll := shown.epoll.set fd (direction.removed (asked fd))
      have same := shown.select.unwatchFd_fst notPipe direction
      have removed : asked.call (.unwatch fd direction.code) =
          Function.update asked fd (direction.removed (asked fd)) := by
        rw [Interest.call, unwatchFlag_code]
      rw [Pollers.call, shown.epoll.unwatch_eq below asks direction, SelectAio.unwatch,
        unwatchFlag_code]
      exact ⟨_, rfl, removed ▸ select, removed ▸ epoll, congrArg₂ List.cons same shown.returns⟩

/-- With the three flags no check fails, and both pollers follow the callers. -/
theorem Shows.run (shown : p.Shows pipefd asked) {calls : List PollCall}
    (allowed : AllowedFrom pipefd asked calls)
    (directions : ∀ c ∈ calls, ∃ direction : PollFlag, c.flag = direction.code) :
    ∃ final, Transition.run Pollers.call p calls = some final ∧
      final.Shows pipefd (calls.foldl Interest.call asked) := by
  induction calls generalizing p asked with
  | nil => exact ⟨p, rfl, shown⟩
  | cons c rest ih =>
      rw [List.forall_mem_cons] at directions
      rcases directions.1 with ⟨direction, flag⟩
      rcases shown.call allowed.1 flag with ⟨next, called, shownNext⟩
      rcases ih shownNext (allowed.2 _ rfl) directions.2 with ⟨final, ran, shownFinal⟩
      exact ⟨final, by rw [run_cons, called, Option.bind_some, ran], shownFinal⟩

theorem Shows.interest (shown : p.Shows pipefd asked) {fd : Nat} (notPipe : fd ≠ pipefd)
    (kind : Callback) : p.select.fds kind fd = p.epoll.interest kind fd :=
  (shown.select.fds fd notPipe kind).trans (shown.epoll.interest kind fd).symm

/-- The answers of `is_watched` differ exactly where `SelectAIO` says yes. -/
theorem Shows.isWatched_iff (shown : p.Shows pipefd asked) {fd : Nat} (below : fd < maxPollFds)
    (notPipe : fd ≠ pipefd) (direction : PollFlag) :
    p.epoll.isWatched fd direction.code = some (p.select.isWatched fd direction.code) ↔
      ∃ kind, direction.covers kind = true ∧ asked fd kind = false := by
  have answer := shown.select.isWatched notPipe direction
  rw [p.epoll.isWatched_code below direction, Option.some.injEq, eq_comm, ← Bool.not_eq_true, answer]
  simp

theorem agree_start (pipefd : Nat) : (start pipefd).Agree := by
  have shown := shows_start pipefd
  refine ⟨fun fd notPipe kind => shown.interest notPipe kind, rfl, ?_⟩
  intro fd below notPipe direction
  rcases direction.covers_some with ⟨kind, covered⟩
  exact (shown.isWatched_iff below notPipe direction).mpr ⟨kind, covered, rfl⟩

theorem not_agree_watch {fd : Nat} (below : fd < maxPollFds) (notPipe : fd ≠ pipefd)
    (flag : BitVec 32) : ∃ next, (start pipefd).call (.watch fd flag) = some next ∧ ¬next.Agree := by
  have checked : ¬(flag = cbRdwr ∧ statusEvents (0 ||| flag) ≠ epollet ||| epollin ||| epollout) := by
    rintro ⟨rfl, different⟩
    exact different rfl
  have shown := (shows_start pipefd).select.watch fd flag
  have watched : ((SelectAio.start pipefd).watch fd flag).isWatched fd (watchFlag flag).code =
      true := by
    apply (shown.isWatched notPipe (watchFlag flag)).mpr
    intro kind covered
    rw [Interest.call, Function.update_self, PollFlag.added, covered, Bool.or_true]
  obtain ⟨epoll, accepted⟩ : ∃ epoll, EPollAio.start.watch fd flag = some epoll := by
    unfold EPollAio.watch
    rw [if_neg (Nat.not_le_of_lt below)]
    exact ⟨_, if_neg checked⟩
  have called : (start pipefd).call (.watch fd flag) =
      (EPollAio.start.watch fd flag).bind (fun epoll =>
        some { start pipefd with select := (SelectAio.start pipefd).watch fd flag, epoll := epoll }) :=
    rfl
  rw [called, accepted]
  refine ⟨_, rfl, fun agree => ?_⟩
  have same := agree.isWatched fd below notPipe (watchFlag flag)
  rw [EPollAio.isWatched_code _ below] at same
  exact Bool.false_ne_true ((Option.some.inj same).trans watched)

theorem throughout_agree_iff {calls : List PollCall}
    (allowed : AllowedFrom pipefd .nothing calls) :
    Throughout Pollers.call Pollers.Agree (start pipefd) calls ↔ calls = [] := by
  cases calls with
  | nil => exact iff_of_true (agree_start pipefd) rfl
  | cons c rest =>
      apply iff_of_false _ (List.cons_ne_nil c rest)
      intro all
      cases c with
      | watch fd flag =>
          rcases not_agree_watch allowed.1.1 allowed.1.2 flag with ⟨next, called, different⟩
          exact different (all.2 next called).good
      | unwatch fd flag =>
          rcases allowed.1.2 with ⟨kind, asks⟩
          cases asks

/-- The pollers agree in every state only where nothing is called. With the three
flags they hold the same interest and return the same, and the answers of
`is_watched` agree just where a direction of the flag is not watched. -/
theorem pollers_agree_iff {calls : List PollCall} (allowed : AllowedFrom pipefd .nothing calls) :
    (Throughout Pollers.call Pollers.Agree (start pipefd) calls ↔ calls = []) ∧
      ((∀ c ∈ calls, ∃ direction : PollFlag, c.flag = direction.code) →
        ∃ p, run Pollers.call (start pipefd) calls = some p ∧
          (∀ fd, fd ≠ pipefd → ∀ kind, p.select.fds kind fd = p.epoll.interest kind fd) ∧
          p.selectReturns = p.epollReturns ∧
          ∀ fd, fd < maxPollFds → fd ≠ pipefd → ∀ direction : PollFlag,
            (p.epoll.isWatched fd direction.code = some (p.select.isWatched fd direction.code) ↔
              ∃ kind, direction.covers kind = true ∧ Interest.after calls fd kind = false)) := by
  refine ⟨throughout_agree_iff allowed, fun directions => ?_⟩
  rcases (shows_start pipefd).run allowed directions with ⟨p, ran, shown⟩
  exact ⟨p, ran, fun fd notPipe kind => shown.interest notPipe kind, shown.returns,
    fun fd below notPipe direction => shown.isWatched_iff below notPipe direction⟩

/-- A descriptor watched for reading, which `EPollAIO` says is not watched. -/
theorem epoll_not_watched :
    AllowedFrom 3 .nothing [.watch 5 cbRdonly] ∧
      ∃ p, run Pollers.call (start 3) [.watch 5 cbRdonly] = some p ∧
        p.select.isWatched 5 cbRdonly = true ∧ p.epoll.isWatched 5 cbRdonly = some false ∧
        ¬p.Agree := by
  refine ⟨⟨⟨by decide, by decide⟩, fun _asked _called => trivial⟩, _, rfl, rfl, rfl, ?_⟩
  intro agree
  cases agree.isWatched 5 (by decide) (by decide) .rdonly

theorem pollers_agree_iff_sample :
    let calls := [.watch 5 cbRdonly, .watch 5 cbWronly, .unwatch 5 cbRdonly]
    (Throughout Pollers.call Pollers.Agree (start 3) calls ↔ calls = []) ∧
      ((∀ c ∈ calls, ∃ direction : PollFlag, c.flag = direction.code) →
        ∃ p, run Pollers.call (start 3) calls = some p ∧
          (∀ fd, fd ≠ 3 → ∀ kind, p.select.fds kind fd = p.epoll.interest kind fd) ∧
          p.selectReturns = p.epollReturns ∧
          ∀ fd, fd < maxPollFds → fd ≠ 3 → ∀ direction : PollFlag,
            (p.epoll.isWatched fd direction.code = some (p.select.isWatched fd direction.code) ↔
              ∃ kind, direction.covers kind = true ∧ Interest.after calls fd kind = false)) := by
  apply pollers_agree_iff
  refine ⟨⟨by decide, by decide⟩, ?_⟩
  rintro _ ⟨⟩
  refine ⟨⟨by decide, by decide⟩, ?_⟩
  rintro _ ⟨⟩
  exact ⟨⟨⟨by decide, by decide⟩, .read, rfl⟩, fun _asked _called => trivial⟩

end Pollers

end CseLab.Rpc
