import CseLab.Lib.Transition

/-! `PollMgr` over `SelectAio`: the threads that register and remove callbacks,
and the one thread of `wait_loop`. A section that holds `m_` is one action, but
for the store to `callbacks_`, which the loop reads without `m_`. -/

namespace CseLab.Rpc

def maxPollFds : Nat := 128

inductive PollFlag where
  | rdonly
  | wronly
  | rdwr

inductive Callback where
  | read
  | write
  deriving DecidableEq

def Callback.pick {α : Type*} (kind : Callback) (reading writing : α) : α :=
  match kind with
  | .read => reading
  | .write => writing

def PollFlag.covers : PollFlag → Callback → Bool
  | .rdonly, .read => true
  | .wronly, .write => true
  | .rdwr, _ => true
  | _, _ => false

/-! ### `SelectAio` -/

structure SelectAio where
  rfds : Nat → Bool
  wfds : Nat → Bool
  highfds : Nat
  pipefd : Nat

def SelectAio.start (pipefd : Nat) : SelectAio :=
  { rfds := fun fd => decide (fd = pipefd)
    wfds := fun _ => false
    highfds := pipefd
    pipefd := pipefd }

def SelectAio.fds (aio : SelectAio) (kind : Callback) : Nat → Bool :=
  kind.pick aio.rfds aio.wfds

def SelectAio.watchFd (aio : SelectAio) (fd : Nat) (flag : PollFlag) : SelectAio :=
  { aio with
    highfds := if aio.highfds ≤ fd then fd else aio.highfds
    rfds := if flag.covers .read then Function.update aio.rfds fd true else aio.rfds
    wfds := if flag.covers .write then Function.update aio.wfds fd true else aio.wfds }

def SelectAio.newHigh (aio : SelectAio) : Nat :=
  (List.range (aio.highfds + 1)).foldl
    (fun newh i => if aio.rfds i then i else if aio.wfds i then i else newh) aio.pipefd

def SelectAio.clearFd (aio : SelectAio) (fd : Nat) (flag : PollFlag) : SelectAio :=
  { aio with
    rfds := if flag.covers .read then Function.update aio.rfds fd false else aio.rfds
    wfds := if flag.covers .write then Function.update aio.wfds fd false else aio.wfds }

def SelectAio.idle (aio : SelectAio) (fd : Nat) : Bool := !aio.rfds fd && !aio.wfds fd

def SelectAio.unwatchFd (aio : SelectAio) (fd : Nat) (flag : PollFlag) : Bool × SelectAio :=
  let aio := aio.clearFd fd flag
  (aio.idle fd,
    { aio with
      highfds := if aio.idle fd = true ∧ fd = aio.highfds then aio.newHigh else aio.highfds })

/-- What `select` may leave in the sets up to `high`. -/
def selected (asked returned : Nat → Bool) (high : Nat) : Bool :=
  (List.range (high + 1)).all (fun fd => !returned fd || asked fd)

/-- The list that `wait_ready` makes for a callback. The read end of the pipe is
in neither list once it is readable. -/
def ready (pipefd high : Nat) (kind : Callback) (trfds twfds : Nat → Bool) : List Nat :=
  (List.range (high + 1)).filter
    (fun fd => kind.pick trfds twfds fd && !(decide (fd = pipefd) && trfds fd))

/-! ### `PollMgr` -/

/-- Where the thread of `wait_loop` is: before the section on `pending_change_`, in
`wait_ready` before or after it has copied the sets, between two callbacks, about to
make one since `callbacks_[fd]` was set, or in it. -/
inductive LoopPhase where
  | head
  | copying
  | selecting (trfds twfds : Nat → Bool) (high : Nat)
  | calling (readable writable : List Nat)
  | checked (kind : Callback) (fd : Nat) (readable writable : List Nat)
  | running (kind : Callback) (fd : Nat) (readable writable : List Nat)

/-- Where a thread is in `block_remove_fd`. It is woken when its wait is over and it has
not got `m_` again yet. -/
inductive Remover where
  | out
  | waiting (fd : Nat)
  | woken (fd : Nat)
  deriving DecidableEq

def Remover.wake : Remover → Remover
  | .waiting fd => .woken fd
  | remover => remover

/-- A store to `callbacks_[fd]` that a thread makes before it gives up `m_`. -/
inductive Store (Handler : Type*) where
  | set (fd : Nat) (ch : Handler)
  | clear (fd : Nat)

/-- `owed` is set as long as a thread has `m_` for a store. -/
structure PollMgr (Thread Handler : Type*) where
  callbacks : Nat → Option Handler
  aio : SelectAio
  pendingChange : Bool
  owed : Option (Store Handler)
  removers : Thread → Remover
  loop : LoopPhase

/-- `addCallback`, `delCallback` and `blockRemoveFd` go up to the store, or to the wait;
`poll`, `copy`, `select`, `next`, `call` and `done` are the loop. -/
inductive MgrAction (Thread Handler : Type*) where
  | addCallback (fd : Nat) (flag : PollFlag) (ch : Handler)
  | delCallback (fd : Nat) (flag : PollFlag)
  | store
  | blockRemoveFd (t : Thread) (fd : Nat)
  | removed (t : Thread)
  | poll
  | copy
  | select (trfds twfds : Nat → Bool)
  | next
  | call
  | done

variable {Thread Handler : Type*}

def PollMgr.start (Thread Handler : Type*) (pipefd : Nat) : PollMgr Thread Handler :=
  { callbacks := fun _ => none
    aio := .start pipefd
    pendingChange := false
    owed := none
    removers := fun _ => .out
    loop := .head }

def PollMgr.check (p : PollMgr Thread Handler) (kind : Callback) (fd : Nat)
    (readable writable : List Nat) : LoopPhase :=
  if (p.callbacks fd).isSome then .checked kind fd readable writable
  else .calling readable writable

def PollMgr.advance (p : PollMgr Thread Handler) : List Nat → List Nat → LoopPhase
  | fd :: readable, writable => p.check .read fd readable writable
  | [], fd :: writable => p.check .write fd [] writable
  | [], [] => .head

def PollMgr.put [DecidableEq Handler] (p : PollMgr Thread Handler) :
    Store Handler → Option (PollMgr Thread Handler)
  | .set fd ch =>
      if p.callbacks fd = none ∨ p.callbacks fd = some ch then
        some { p with callbacks := Function.update p.callbacks fd (some ch), owed := none }
      else none
  | .clear fd => some { p with callbacks := Function.update p.callbacks fd none, owed := none }

/-- One action. None at all where the source would abort, index outside
`callbacks_` or call through a null pointer. -/
def PollMgr.step [DecidableEq Thread] [DecidableEq Handler] (p : PollMgr Thread Handler) :
    MgrAction Thread Handler → Option (PollMgr Thread Handler)
  | .addCallback fd flag ch =>
      if p.owed.isNone ∧ fd < maxPollFds then
        some { p with aio := p.aio.watchFd fd flag, owed := some (.set fd ch) }
      else none
  | .delCallback fd flag =>
      if p.owed.isNone ∧ fd < maxPollFds then
        let (last, aio) := p.aio.unwatchFd fd flag
        some { p with aio := aio, owed := if last then some (.clear fd) else none }
      else none
  | .store => p.owed.bind p.put
  | .blockRemoveFd t fd =>
      if p.owed.isNone ∧ fd < maxPollFds ∧ p.removers t = .out then
        some { p with
          aio := (p.aio.unwatchFd fd .rdwr).2
          pendingChange := true
          removers := Function.update p.removers t (.waiting fd) }
      else none
  | .removed t =>
      match p.removers t with
      | .woken fd =>
          if p.owed.isNone then
            some { p with
              callbacks := Function.update p.callbacks fd none
              removers := Function.update p.removers t .out }
          else none
      | _ => none
  | .poll =>
      match p.loop with
      | .head =>
          if p.owed.isNone then
            some { p with
              pendingChange := false
              removers := if p.pendingChange then fun t => (p.removers t).wake else p.removers
              loop := .copying }
          else none
      | _ => none
  | .copy =>
      match p.loop with
      | .copying => some { p with loop := .selecting p.aio.rfds p.aio.wfds p.aio.highfds }
      | _ => none
  | .select trfds twfds =>
      match p.loop with
      | .selecting rfds wfds high =>
          if selected rfds trfds high ∧ selected wfds twfds high then
            some { p with
              loop := .calling (ready p.aio.pipefd high .read trfds twfds)
                (ready p.aio.pipefd high .write trfds twfds) }
          else none
      | _ => none
  | .next =>
      match p.loop with
      | .calling readable writable => some { p with loop := p.advance readable writable }
      | _ => none
  | .call =>
      match p.loop with
      | .checked kind fd readable writable =>
          if (p.callbacks fd).isSome then some { p with loop := .running kind fd readable writable }
          else none
      | _ => none
  | .done =>
      match p.loop with
      | .running _ _ readable writable => some { p with loop := .calling readable writable }
      | _ => none

/-! ### What one action can do to the interest in a descriptor -/

theorem SelectAio.fds_watchFd (aio : SelectAio) (fd : Nat) (flag : PollFlag) (kind : Callback) :
    (aio.watchFd fd flag).fds kind =
      if flag.covers kind then Function.update (aio.fds kind) fd true else aio.fds kind := by
  cases kind <;> rfl

theorem SelectAio.fds_unwatchFd (aio : SelectAio) (fd : Nat) (flag : PollFlag) (kind : Callback) :
    (aio.unwatchFd fd flag).2.fds kind =
      if flag.covers kind then Function.update (aio.fds kind) fd false else aio.fds kind := by
  cases kind <;> rfl

theorem SelectAio.fds_unwatchFd_false {aio : SelectAio} {fd : Nat} {kind : Callback}
    (unwatched : aio.fds kind fd = false) (other : Nat) (flag : PollFlag) :
    (aio.unwatchFd other flag).2.fds kind fd = false := by
  rw [SelectAio.fds_unwatchFd]
  split
  · rw [Function.update_apply, unwatched, ite_self]
  · exact unwatched

theorem SelectAio.fds_unwatchFd_rdwr (aio : SelectAio) (fd : Nat) (kind : Callback) :
    (aio.unwatchFd fd .rdwr).2.fds kind fd = false := by
  rw [SelectAio.fds_unwatchFd, if_pos (by cases kind <;> rfl), Function.update_self]

/-- The loop has readiness of the descriptor, or may yet get it from `select`. -/
def LoopPhase.Holds (kind : Callback) (fd : Nat) : LoopPhase → Prop
  | .head => False
  | .copying => False
  | .selecting trfds twfds _ => kind.pick trfds twfds fd = true
  | .calling readable writable => fd ∈ kind.pick readable writable
  | .checked called ready readable writable =>
      (called = kind ∧ ready = fd) ∨ fd ∈ kind.pick readable writable
  | .running called ready readable writable =>
      (called = kind ∧ ready = fd) ∨ fd ∈ kind.pick readable writable

instance LoopPhase.holdsDecidable (kind : Callback) (fd : Nat) :
    (loop : LoopPhase) → Decidable (loop.Holds kind fd)
  | .head => inferInstanceAs (Decidable False)
  | .copying => inferInstanceAs (Decidable False)
  | .selecting trfds twfds _ => inferInstanceAs (Decidable (kind.pick trfds twfds fd = true))
  | .calling readable writable => inferInstanceAs (Decidable (fd ∈ kind.pick readable writable))
  | .checked called ready readable writable | .running called ready readable writable =>
      inferInstanceAs
        (Decidable ((called = kind ∧ ready = fd) ∨ fd ∈ kind.pick readable writable))

def LoopPhase.callback : LoopPhase → Option (Callback × Nat)
  | .running kind fd _ _ => some (kind, fd)
  | _ => none

def LoopPhase.Running (kind : Callback) (fd : Nat) (loop : LoopPhase) : Prop :=
  loop.callback = some (kind, fd)

theorem LoopPhase.Running.holds {kind : Callback} {fd : Nat} {loop : LoopPhase}
    (running : loop.Running kind fd) : loop.Holds kind fd := by
  cases loop with
  | running called ready readable writable =>
      cases running
      exact .inl ⟨rfl, rfl⟩
  | _ => cases running

def MgrAction.Adds (kind : Callback) (fd : Nat) (action : MgrAction Thread Handler) : Prop :=
  ∃ flag ch, action = .addCallback fd flag ch ∧ flag.covers kind = true

def MgrAction.AddsFd (fd : Nat) (action : MgrAction Thread Handler) : Prop :=
  ∃ flag ch, action = .addCallback fd flag ch

theorem MgrAction.Adds.addsFd {kind : Callback} {fd : Nat}
    {action : MgrAction Thread Handler} (adds : action.Adds kind fd) : action.AddsFd fd := by
  obtain ⟨flag, ch, same, -⟩ := adds
  exact ⟨flag, ch, same⟩

def MgrAction.spares (fd : Nat) : MgrAction Thread Handler → Bool
  | .addCallback other _ _ => decide (other ≠ fd)
  | .delCallback other _ => decide (other ≠ fd)
  | .blockRemoveFd _ other => decide (other ≠ fd)
  | _ => true

/-- No interest in the descriptor: `select` will not be asked for it, and the
loop has nothing of it. -/
structure PollMgr.Quiet (kind : Callback) (fd : Nat) (p : PollMgr Thread Handler) : Prop where
  unwatched : p.aio.fds kind fd = false
  unheld : ¬ p.loop.Holds kind fd

theorem PollMgr.holds_check {p : PollMgr Thread Handler} {called kind : Callback} {first fd : Nat}
    {readable writable : List Nat} (held : (p.check called first readable writable).Holds kind fd) :
    (called = kind ∧ first = fd) ∨ fd ∈ kind.pick readable writable := by
  unfold PollMgr.check at held
  split at held
  · exact held
  · exact .inr held

theorem PollMgr.holds_advance {p : PollMgr Thread Handler} {kind : Callback} {fd : Nat}
    {readable writable : List Nat} (held : (p.advance readable writable).Holds kind fd) :
    fd ∈ kind.pick readable writable := by
  cases readable with
  | cons first readable =>
      rcases p.holds_check held with ⟨rfl, rfl⟩ | later
      · exact List.mem_cons_self
      · cases kind with
        | read => exact List.mem_cons_of_mem first later
        | write => exact later
  | nil =>
      cases writable with
      | nil => exact held.elim
      | cons first writable =>
          rcases p.holds_check held with ⟨rfl, rfl⟩ | later
          · exact List.mem_cons_self
          · cases kind with
            | read => exact later
            | write => exact List.mem_cons_of_mem first later

theorem holds_ready {kind : Callback} {fd pipefd high : Nat} {rfds wfds trfds twfds : Nat → Bool}
    (reads : selected rfds trfds high = true) (writes : selected wfds twfds high = true)
    (held : fd ∈ ready pipefd high kind trfds twfds) : kind.pick rfds wfds fd = true := by
  obtain ⟨below, chosen⟩ := List.mem_filter.mp held
  have returned := (Bool.and_eq_true_iff.mp chosen).1
  cases kind with
  | read =>
      have asked := List.all_eq_true.mp reads fd below
      change trfds fd = true at returned
      rwa [returned] at asked
  | write =>
      have asked := List.all_eq_true.mp writes fd below
      change twfds fd = true at returned
      rwa [returned] at asked

variable [DecidableEq Thread]

inductive PollMgr.Takes (p : PollMgr Thread Handler) :
    MgrAction Thread Handler → PollMgr Thread Handler → Prop where
  | addCallback (fd : Nat) (flag : PollFlag) (ch : Handler) : p.owed = none →
      p.Takes (.addCallback fd flag ch)
        { p with aio := p.aio.watchFd fd flag, owed := some (.set fd ch) }
  | delCallback (fd : Nat) (flag : PollFlag) : p.owed = none →
      p.Takes (.delCallback fd flag)
        { p with
          aio := (p.aio.unwatchFd fd flag).2
          owed := if (p.aio.unwatchFd fd flag).1 then some (.clear fd) else none }
  | set (fd : Nat) (ch : Handler) : p.owed = some (.set fd ch) →
      p.Takes .store
        { p with callbacks := Function.update p.callbacks fd (some ch), owed := none }
  | clear (fd : Nat) : p.owed = some (.clear fd) →
      p.Takes .store { p with callbacks := Function.update p.callbacks fd none, owed := none }
  | blockRemoveFd (t : Thread) (fd : Nat) : p.removers t = .out →
      p.Takes (.blockRemoveFd t fd)
        { p with
          aio := (p.aio.unwatchFd fd .rdwr).2
          pendingChange := true
          removers := Function.update p.removers t (.waiting fd) }
  | removed (t : Thread) (fd : Nat) : p.removers t = .woken fd →
      p.Takes (.removed t)
        { p with
          callbacks := Function.update p.callbacks fd none
          removers := Function.update p.removers t .out }
  | poll : p.loop = .head →
      p.Takes .poll
        { p with
          pendingChange := false
          removers := if p.pendingChange then fun t => (p.removers t).wake else p.removers
          loop := .copying }
  | copy : p.loop = .copying →
      p.Takes .copy { p with loop := .selecting p.aio.rfds p.aio.wfds p.aio.highfds }
  | select (rfds wfds trfds twfds : Nat → Bool) (high : Nat) : p.loop = .selecting rfds wfds high →
      selected rfds trfds high = true → selected wfds twfds high = true →
      p.Takes (.select trfds twfds)
        { p with
          loop := .calling (ready p.aio.pipefd high .read trfds twfds)
            (ready p.aio.pipefd high .write trfds twfds) }
  | next (readable writable : List Nat) : p.loop = .calling readable writable →
      p.Takes .next { p with loop := p.advance readable writable }
  | call (kind : Callback) (fd : Nat) (readable writable : List Nat) :
      p.loop = .checked kind fd readable writable → (p.callbacks fd).isSome = true →
      p.Takes .call { p with loop := .running kind fd readable writable }
  | done (kind : Callback) (fd : Nat) (readable writable : List Nat) :
      p.loop = .running kind fd readable writable →
      p.Takes .done { p with loop := .calling readable writable }

theorem PollMgr.step_takes [DecidableEq Handler] {p next : PollMgr Thread Handler}
    {action : MgrAction Thread Handler} (taken : p.step action = some next) :
    p.Takes action next := by
  cases action with
  | addCallback fd flag ch =>
      obtain ⟨⟨free, -⟩, same⟩ := Option.ite_none_right_eq_some.mp taken
      cases same
      exact .addCallback fd flag ch (Option.isNone_iff_eq_none.mp free)
  | delCallback fd flag =>
      obtain ⟨⟨free, -⟩, same⟩ := Option.ite_none_right_eq_some.mp taken
      cases same
      exact .delCallback fd flag (Option.isNone_iff_eq_none.mp free)
  | store =>
      obtain ⟨owed, held, put⟩ := Option.bind_eq_some_iff.mp taken
      cases owed with
      | set fd ch =>
          obtain ⟨-, same⟩ := Option.ite_none_right_eq_some.mp put
          cases same
          exact .set fd ch held
      | clear fd =>
          cases put
          exact .clear fd held
  | blockRemoveFd t fd =>
      obtain ⟨⟨-, -, outside⟩, same⟩ := Option.ite_none_right_eq_some.mp taken
      cases same
      exact .blockRemoveFd t fd outside
  | removed t =>
      cases woken : p.removers t with
      | woken fd =>
          simp only [PollMgr.step, woken] at taken
          obtain ⟨-, same⟩ := Option.ite_none_right_eq_some.mp taken
          cases same
          exact .removed t fd woken
      | out | waiting fd =>
          simp only [PollMgr.step, woken] at taken
          cases taken
  | poll =>
      cases here : p.loop with
      | head =>
          simp only [PollMgr.step, here] at taken
          obtain ⟨-, same⟩ := Option.ite_none_right_eq_some.mp taken
          cases same
          exact .poll here
      | _ =>
          simp only [PollMgr.step, here] at taken
          cases taken
  | copy =>
      cases here : p.loop with
      | copying =>
          simp only [PollMgr.step, here] at taken
          cases taken
          exact .copy here
      | _ =>
          simp only [PollMgr.step, here] at taken
          cases taken
  | select trfds twfds =>
      cases here : p.loop with
      | selecting rfds wfds high =>
          simp only [PollMgr.step, here] at taken
          obtain ⟨⟨reads, writes⟩, same⟩ := Option.ite_none_right_eq_some.mp taken
          cases same
          exact .select rfds wfds trfds twfds high here reads writes
      | _ =>
          simp only [PollMgr.step, here] at taken
          cases taken
  | next =>
      cases here : p.loop with
      | calling readable writable =>
          simp only [PollMgr.step, here] at taken
          cases taken
          exact .next readable writable here
      | _ =>
          simp only [PollMgr.step, here] at taken
          cases taken
  | call =>
      cases here : p.loop with
      | checked kind fd readable writable =>
          simp only [PollMgr.step, here] at taken
          obtain ⟨present, same⟩ := Option.ite_none_right_eq_some.mp taken
          cases same
          exact .call kind fd readable writable here present
      | _ =>
          simp only [PollMgr.step, here] at taken
          cases taken
  | done =>
      cases here : p.loop with
      | running kind fd readable writable =>
          simp only [PollMgr.step, here] at taken
          cases taken
          exact .done kind fd readable writable here
      | _ =>
          simp only [PollMgr.step, here] at taken
          cases taken

instance PollMgr.quietDecidable (kind : Callback) (fd : Nat) (p : PollMgr Thread Handler) :
    Decidable (p.Quiet kind fd) :=
  decidable_of_iff (p.aio.fds kind fd = false ∧ ¬ p.loop.Holds kind fd)
    ⟨fun facts => ⟨facts.1, facts.2⟩, fun quiet => ⟨quiet.unwatched, quiet.unheld⟩⟩

/-! ### A descriptor without interest stays without -/

variable {p next : PollMgr Thread Handler} {action : MgrAction Thread Handler} {kind : Callback}
  {fd : Nat}

theorem PollMgr.Takes.unwatched (takes : p.Takes action next) (others : ¬ action.Adds kind fd)
    (unwatched : p.aio.fds kind fd = false) : next.aio.fds kind fd = false := by
  cases takes with
  | addCallback other flag ch =>
      rw [SelectAio.fds_watchFd]
      split
      next covered =>
        have different : fd ≠ other := by
          rintro rfl
          exact others ⟨flag, ch, rfl, covered⟩
        rw [Function.update_of_ne different]
        exact unwatched
      next => exact unwatched
  | delCallback other flag => exact SelectAio.fds_unwatchFd_false unwatched other flag
  | blockRemoveFd t other => exact SelectAio.fds_unwatchFd_false unwatched other .rdwr
  | _ => exact unwatched

theorem PollMgr.Takes.unheld (takes : p.Takes action next)
    (unwatched : p.loop = .copying → p.aio.fds kind fd = false) (unheld : ¬ p.loop.Holds kind fd) :
    ¬ next.loop.Holds kind fd := by
  cases takes with
  | addCallback | delCallback | set | clear | blockRemoveFd | removed => exact unheld
  | poll => exact id
  | copy here =>
      intro held
      exact Bool.false_ne_true ((unwatched here).symm.trans held)
  | select rfds wfds trfds twfds high here reads writes =>
      rw [here] at unheld
      intro held
      apply unheld
      cases kind with
      | read => exact holds_ready reads writes held
      | write => exact holds_ready reads writes held
  | next readable writable here =>
      rw [here] at unheld
      exact fun held => unheld (p.holds_advance held)
  | call called ready readable writable here =>
      rw [here] at unheld
      exact unheld
  | done called ready readable writable here =>
      rw [here] at unheld
      exact fun held => unheld (.inr held)

theorem PollMgr.Quiet.step (quiet : p.Quiet kind fd) (others : ¬ action.Adds kind fd)
    (takes : p.Takes action next) : next.Quiet kind fd :=
  ⟨takes.unwatched others quiet.unwatched, takes.unheld (fun _ => quiet.unwatched) quiet.unheld⟩

end CseLab.Rpc
