import CseLab.Lib.Counting
import CseLab.Lib.Transition

/-! `fifo` and `ThrPool`. A step is a section that holds the queue's mutex, or a
job; a thread in `pthread_cond_wait` sleeps until a signal, or nothing, wakes it,
and then goes through its loop again. -/

namespace CseLab.Rpc

/-! ### `fifo` -/

structure Fifo (T : Type) where
  q : List T
  max : Nat

variable {T : Type}

/-- One turn of the loop of `enq`; without space there is no push. -/
def Fifo.enq (f : Fifo T) (e : T) : Option (Fifo T) :=
  if f.max = 0 ∨ f.q.length < f.max then some { f with q := f.q ++ [e] } else none

def Fifo.deq (f : Fifo T) : Option (T × Fifo T) :=
  match f.q with
  | [] => none
  | e :: rest => some (e, { f with q := rest })

def Fifo.spacious (f : Fifo T) : Bool := decide (f.max ≠ 0 ∧ f.q.length < f.max)

/-! ### `ThrPool` -/

/-- A `job_t`: the number of the `addJob` call that made it, or a poison pill. -/
abbrev PoolJob := Option Nat

/-- Where a thread in `do_worker` is: before `takeJob`, in the wait for `non_empty_c_`,
woken from it, or in a job. -/
inductive Worker where
  | ready
  | asleep
  | woken
  | running (call : Nat)
  | exited
deriving DecidableEq

/-- Where `~ThrPool` is; `left` are the pills it has yet to queue. -/
inductive Destructor where
  | idle
  | poisoning (left : Nat)
  | returned
deriving DecidableEq

/-- `blocked` has the items of the `enq` calls that wait for `has_space_c_`, `retrying`
of those woken from it. `calls` counts the `addJob` calls, which end `accepted` or
`refused`, and `taken` has what each worker has taken. -/
structure ThrPool where
  nthreads : Nat
  blockadd : Bool
  jobq : Fifo PoolJob
  workers : List Worker
  blocked : List PoolJob
  retrying : List PoolJob
  destructor : Destructor
  calls : Nat
  accepted : List Nat
  refused : List Nat
  executed : List Nat
  taken : List (Nat × PoolJob)

def ThrPool.start (sz : Nat) (blocking : Bool) : ThrPool :=
  { nthreads := sz
    blockadd := blocking
    jobq := { q := [], max := 100 * sz }
    workers := List.replicate sz .ready
    blocked := []
    retrying := []
    destructor := .idle
    calls := 0
    accepted := []
    refused := []
    executed := []
    taken := [] }

/-- `pthread_cond_signal(&non_empty_c_)`: it wakes a worker if one sleeps. -/
def ThrPool.signalNonEmpty (s : ThrPool) : (wakes : Option Nat) → Option ThrPool
  | none => if .asleep ∈ s.workers then none else some s
  | some index =>
      if s.workers[index]? = some .asleep then
        some { s with workers := s.workers.set index .woken }
      else none

def ThrPool.signalHasSpace (s : ThrPool) : (wakes : Option Nat) → Option ThrPool
  | none => if s.blocked = [] then some s else none
  | some index =>
      (s.blocked[index]?).map fun e =>
        { s with blocked := s.blocked.eraseIdx index, retrying := s.retrying ++ [e] }

def ThrPool.accept (s : ThrPool) (e : PoolJob) : ThrPool :=
  { s with accepted := e.toList ++ s.accepted }

/-- `enq` without space: the call waits, or it returns false. -/
def ThrPool.reject (s : ThrPool) (e : PoolJob) (blocking : Bool) : ThrPool :=
  if blocking then { s with blocked := s.blocked ++ [e] }
  else { s with refused := e.toList ++ s.refused }

def ThrPool.enq (s : ThrPool) (e : PoolJob) (blocking : Bool) (wakes : Option Nat) :
    Option ThrPool :=
  match s.jobq.enq e with
  | some jobq => ({ s with jobq := jobq }.accept e).signalNonEmpty wakes
  | none => some (s.reject e blocking)

def Worker.took : PoolJob → Worker
  | some call => .running call
  | none => .exited

def ThrPool.takeJob (s : ThrPool) (index : Nat) (wakes : Option Nat) : Option ThrPool :=
  match s.jobq.deq with
  | none => some { s with workers := s.workers.set index .asleep }
  | some (e, jobq) =>
      let next := { s with
        jobq := jobq
        workers := s.workers.set index (.took e)
        taken := (index, e) :: s.taken }
      if jobq.spacious then next.signalHasSpace wakes else some next

/-- `execute` is the end of a job, `retry` what `enq` does after a wait; `wakeWorker`
and `wakeEnq` end a wait without a signal. -/
inductive PoolAction where
  | addJob (wakes : Option Nat)
  | takeJob (index : Nat) (wakes : Option Nat)
  | execute (index : Nat)
  | wakeWorker (index : Nat)
  | wakeEnq (index : Nat)
  | retry (index : Nat) (wakes : Option Nat)
  | destroy
  | poison (wakes : Option Nat)
  | join

def ThrPool.Quiet (s : ThrPool) : Prop := s.blocked = [] ∧ s.retrying = []

instance (s : ThrPool) : Decidable s.Quiet := inferInstanceAs (Decidable (_ ∧ _))

/-- `~ThrPool` may be called only when no other thread uses the pool. -/
def ThrPool.step (s : ThrPool) : PoolAction → Option ThrPool
  | .addJob wakes =>
      if s.destructor = .idle then
        { s with calls := s.calls + 1 }.enq (some s.calls) s.blockadd wakes
      else none
  | .takeJob index wakes =>
      if s.workers[index]? = some .ready ∨ s.workers[index]? = some .woken then
        s.takeJob index wakes
      else none
  | .execute index =>
      match s.workers[index]? with
      | some (.running call) =>
          some { s with
            workers := s.workers.set index .ready
            executed := call :: s.executed }
      | _ => none
  | .wakeWorker index =>
      if s.workers[index]? = some .asleep then
        some { s with workers := s.workers.set index .woken }
      else none
  | .wakeEnq index =>
      (s.blocked[index]?).map fun e =>
        { s with blocked := s.blocked.eraseIdx index, retrying := s.retrying ++ [e] }
  | .retry index wakes =>
      (s.retrying[index]?).bind fun e =>
        { s with retrying := s.retrying.eraseIdx index }.enq e true wakes
  | .destroy =>
      if s.destructor = .idle ∧ s.Quiet then
        some { s with destructor := .poisoning s.nthreads }
      else none
  | .poison wakes =>
      match s.destructor with
      | .poisoning (left + 1) =>
          if s.Quiet then { s with destructor := .poisoning left }.enq none true wakes else none
      | _ => none
  | .join =>
      if s.destructor = .poisoning 0 ∧ s.Quiet ∧ ∀ worker ∈ s.workers, worker = .exited then
        some { s with destructor := .returned }
      else none

end CseLab.Rpc
