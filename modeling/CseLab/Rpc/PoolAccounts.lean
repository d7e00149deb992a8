import CseLab.Lib.Slots
import CseLab.Rpc.ThrPool

/-! What becomes of the jobs of a thread pool. Every job that `addJob` accepted
is in the queue, with a worker, or done; every pill is in the queue or has ended
a worker; and behind a pill there are only pills. -/

namespace CseLab.Rpc

open Counting Slots Transition

/-- The pills that `~ThrPool` has still to queue. -/
def Destructor.left : Destructor → Nat
  | .poisoning left => left
  | _ => 0

/-- The accounts of a pool in which the items of `transit` are about to be queued. -/
structure ThrPool.Accounted (transit : List PoolJob) (s : ThrPool) : Prop where
  size : s.workers.length = s.nthreads
  jobs : ∀ call, s.accepted.count call =
    s.executed.count call + s.workers.count (.running call) + s.jobq.q.count (some call)
  calls : ∀ call, s.accepted.count call + s.refused.count call + s.blocked.count (some call) +
    s.retrying.count (some call) + transit.count (some call) = if call < s.calls then 1 else 0
  pills : s.workers.count .exited + s.jobq.q.count none + s.blocked.count none +
    s.retrying.count none + transit.count none + s.destructor.left =
      if s.destructor = .idle then 0 else s.nthreads
  ordered : s.jobq.q.Pairwise (fun a b => a = none → b = none)
  last : .exited ∈ s.workers → ∀ e ∈ s.jobq.q, e = none
  poisoned : s.destructor ≠ .idle →
    (∀ e ∈ s.blocked, e = none) ∧ (∀ e ∈ s.retrying, e = none) ∧ ∀ e ∈ transit, e = none
  taken : ∀ index worker, s.workers[index]? = some worker →
    s.taken.count (index, none) = if worker = .exited then 1 else 0

theorem ThrPool.Accounted.start (sz : Nat) (blocking : Bool) :
    (ThrPool.start sz blocking).Accounted [] := by
  have ready : ∀ worker ∈ List.replicate sz Worker.ready, worker = .ready :=
    fun _worker member => List.eq_of_mem_replicate member
  have none : ∀ worker, worker ≠ .ready → (List.replicate sz Worker.ready).count worker = 0 :=
    fun worker other => List.count_eq_zero_of_not_mem (fun member => other (ready worker member))
  refine ⟨List.length_replicate, ?_, ?_, ?_, List.Pairwise.nil, ?_, ?_, ?_⟩
  · intro call
    change 0 = 0 + (List.replicate sz Worker.ready).count (.running call) + 0
    rw [none _ Worker.noConfusion]
  · exact fun call => (if_neg (Nat.not_lt_zero call)).symm
  · change (List.replicate sz Worker.ready).count .exited + 0 + 0 + 0 + 0 + 0 = 0
    rw [none _ Worker.noConfusion]
  · exact fun member => nomatch ready _ member
  · exact fun started => absurd rfl started
  · intro index worker here
    rw [ready worker (List.mem_of_getElem? here)]
    rfl

/-! ### `enq` -/

inductive ThrPool.Enq (s : ThrPool) (e : PoolJob) (blocking : Bool) : ThrPool → Prop
  | quiet (room : s.jobq.max = 0 ∨ s.jobq.q.length < s.jobq.max) (awake : .asleep ∉ s.workers) :
      Enq s e blocking { s with
        jobq := { s.jobq with q := s.jobq.q ++ [e] }
        accepted := e.toList ++ s.accepted }
  | signal (room : s.jobq.max = 0 ∨ s.jobq.q.length < s.jobq.max) (index : Nat)
      (sleeps : s.workers[index]? = some .asleep) :
      Enq s e blocking { s with
        jobq := { s.jobq with q := s.jobq.q ++ [e] }
        accepted := e.toList ++ s.accepted
        workers := s.workers.set index .woken }
  | wait (full : s.jobq.max ≤ s.jobq.q.length) (blocks : blocking = true) :
      Enq s e blocking { s with blocked := s.blocked ++ [e] }
  | refuse (full : s.jobq.max ≤ s.jobq.q.length) (returns : blocking = false) :
      Enq s e blocking { s with refused := e.toList ++ s.refused }

theorem ThrPool.enq_cases {s next : ThrPool} {e : PoolJob} {blocking : Bool} {wakes : Option Nat}
    (queued : s.enq e blocking wakes = some next) : s.Enq e blocking next := by
  unfold ThrPool.enq Fifo.enq at queued
  split at queued
  · rename_i jobq pushed
    obtain ⟨room, same⟩ := Option.ite_none_right_eq_some.mp pushed
    cases same
    cases wakes with
    | none =>
        obtain ⟨awake, same⟩ := Option.ite_none_left_eq_some.mp queued
        cases same
        exact .quiet room awake
    | some index =>
        obtain ⟨sleeps, same⟩ := Option.ite_none_right_eq_some.mp queued
        cases same
        exact .signal room index sleeps
  · rename_i full
    have full : s.jobq.max ≤ s.jobq.q.length := by
      by_contra room
      rw [if_pos (Or.inr (Nat.lt_of_not_le room))] at full
      cases full
    cases queued
    cases blocking with
    | true => exact .wait full rfl
    | false => exact .refuse full rfl

theorem ThrPool.Accounted.setWorker {transit : List PoolJob} {s : ThrPool}
    (accounted : s.Accounted transit) {index : Nat} {old new : Worker}
    (here : s.workers[index]? = some old) (oldIdle : ∀ call, old ≠ .running call)
    (oldLives : old ≠ .exited) (newIdle : ∀ call, new ≠ .running call) (newLives : new ≠ .exited) :
    ThrPool.Accounted transit { s with workers := s.workers.set index new } := by
  have running : ∀ call, (s.workers.set index new).count (.running call) =
      s.workers.count (.running call) := by
    intro call
    have counted := count_set_add new (.running call) here
    simpa only [beq_iff_eq, oldIdle, newIdle, if_false, Nat.add_zero] using counted
  have exited : (s.workers.set index new).count .exited = s.workers.count .exited := by
    have counted := count_set_add new .exited here
    simpa only [beq_iff_eq, oldLives, newLives, if_false, Nat.add_zero] using counted
  refine ⟨?_, ?_, accounted.calls, ?_, accounted.ordered, ?_, accounted.poisoned, ?_⟩
  · exact (List.length_set).trans accounted.size
  · intro call
    change _ = _ + (s.workers.set index new).count (.running call) + _
    rw [running]
    exact accounted.jobs call
  · change (s.workers.set index new).count .exited + _ + _ + _ + _ + _ = _
    rw [exited]
    exact accounted.pills
  · intro member
    apply accounted.last
    rw [← List.count_pos_iff] at member ⊢
    exact exited ▸ member
  · intro other worker there
    rcases slot_set_cases there with ⟨rfl, rfl⟩ | ⟨-, before⟩
    · have was := accounted.taken other old here
      rw [if_neg oldLives] at was
      rw [if_neg newLives]
      exact was
    · exact accounted.taken other worker before

theorem count_some_singleton (call other : Nat) :
    [some other].count (some call) = [other].count call := by
  by_cases same : other = call
  · simp [same]
  · simp [same]

theorem ThrPool.Accounted.push {s : ThrPool} {e : PoolJob} (accounted : s.Accounted [e]) :
    ThrPool.Accounted [] { s with
      jobq := { s.jobq with q := s.jobq.q ++ [e] }
      accepted := e.toList ++ s.accepted } := by
  have isPill : s.destructor ≠ .idle → e = none :=
    fun started => (accounted.poisoned started).2.2 e List.mem_cons_self
  have started : (.exited ∈ s.workers ∨ none ∈ s.jobq.q) → s.destructor ≠ .idle := by
    intro some idle
    have none := accounted.pills
    rw [if_pos idle] at none
    rcases some with exited | pill
    · have positive := List.count_pos_iff.mpr exited
      omega
    · have positive := List.count_pos_iff.mpr pill
      omega
  have sameCount : ∀ call, e.toList.count call = [e].count (some call) := by
    intro call
    cases e with
    | none => rfl
    | some other => exact (count_some_singleton call other).symm
  constructor
  · exact accounted.size
  · intro call
    have was := accounted.jobs call
    simp only [List.count_append, sameCount]
    omega
  · intro call
    have was := accounted.calls call
    simp only [List.count_append, sameCount, List.count_nil]
    omega
  · have was := accounted.pills
    simp only [List.count_append, List.count_nil]
    omega
  · apply List.pairwise_append.mpr
    refine ⟨accounted.ordered, List.pairwise_singleton _ _, ?_⟩
    intro a member b last pill
    rw [List.mem_singleton.mp last]
    exact isPill (started (Or.inr (pill ▸ member)))
  · intro exited b member
    rcases List.mem_append.mp member with before | last
    · exact accounted.last exited b before
    · rw [List.mem_singleton.mp last]
      exact isPill (started (Or.inl exited))
  · intro begun
    obtain ⟨blocked, retrying, -⟩ := accounted.poisoned begun
    exact ⟨blocked, retrying, fun _ member => absurd member List.not_mem_nil⟩
  · exact accounted.taken

theorem ThrPool.Accounted.enq {s next : ThrPool} {e : PoolJob} {blocking : Bool}
    (accounted : s.Accounted [e]) (queued : s.Enq e blocking next)
    (job : blocking = false → e.isSome) : next.Accounted [] := by
  cases queued with
  | quiet room awake => exact accounted.push
  | signal room index sleeps =>
      exact accounted.push.setWorker sleeps (fun _ => Worker.noConfusion) Worker.noConfusion
        (fun _ => Worker.noConfusion) Worker.noConfusion
  | wait full blocks =>
      constructor
      · exact accounted.size
      · exact accounted.jobs
      · intro call
        have was := accounted.calls call
        simp only [List.count_append, List.count_nil]
        omega
      · have was := accounted.pills
        simp only [List.count_append, List.count_nil]
        omega
      · exact accounted.ordered
      · exact accounted.last
      · intro begun
        obtain ⟨blocked, retrying, transit⟩ := accounted.poisoned begun
        refine ⟨?_, retrying, fun _ member => absurd member List.not_mem_nil⟩
        intro other member
        rcases List.mem_append.mp member with before | last
        · exact blocked other before
        · exact transit other last
      · exact accounted.taken
  | refuse full returns =>
      obtain ⟨call, rfl⟩ := Option.isSome_iff_exists.mp (job returns)
      constructor
      · exact accounted.size
      · exact accounted.jobs
      · intro other
        have was := accounted.calls other
        rw [count_some_singleton] at was
        simp only [Option.toList_some, List.count_append, List.count_nil]
        omega
      · have was := accounted.pills
        have other : [some call].count (none : PoolJob) = 0 := rfl
        simp only [List.count_nil]
        omega
      · exact accounted.ordered
      · exact accounted.last
      · intro begun
        obtain ⟨blocked, retrying, -⟩ := accounted.poisoned begun
        exact ⟨blocked, retrying, fun _ member => absurd member List.not_mem_nil⟩
      · exact accounted.taken

/-! ### The steps -/

inductive ThrPool.Step (s : ThrPool) : ThrPool → Prop
  | call {next : ThrPool} (idle : s.destructor = .idle)
      (queued : ThrPool.Enq { s with calls := s.calls + 1 } (some s.calls) s.blockadd next) :
      Step s next
  | sleep (index : Nat) (worker : Worker) (here : s.workers[index]? = some worker)
      (up : worker = .ready ∨ worker = .woken) (empty : s.jobq.q = []) :
      Step s { s with workers := s.workers.set index .asleep }
  | take (index : Nat) (worker : Worker) (here : s.workers[index]? = some worker)
      (up : worker = .ready ∨ worker = .woken) (e : PoolJob) (rest : List PoolJob)
      (queue : s.jobq.q = e :: rest)
      (silent : s.jobq.max = 0 ∨ s.jobq.max ≤ rest.length ∨ s.blocked = []) :
      Step s { s with
        jobq := { s.jobq with q := rest }
        workers := s.workers.set index (.took e)
        taken := (index, e) :: s.taken }
  | takeSignal (index : Nat) (worker : Worker) (here : s.workers[index]? = some worker)
      (up : worker = .ready ∨ worker = .woken) (e : PoolJob) (rest : List PoolJob)
      (queue : s.jobq.q = e :: rest) (waiter : Nat) (item : PoolJob)
      (waits : s.blocked[waiter]? = some item) :
      Step s { s with
        jobq := { s.jobq with q := rest }
        workers := s.workers.set index (.took e)
        taken := (index, e) :: s.taken
        blocked := s.blocked.eraseIdx waiter
        retrying := s.retrying ++ [item] }
  | execute (index call : Nat) (here : s.workers[index]? = some (.running call)) :
      Step s { s with
        workers := s.workers.set index .ready
        executed := call :: s.executed }
  | wakeWorker (index : Nat) (here : s.workers[index]? = some .asleep) :
      Step s { s with workers := s.workers.set index .woken }
  | wakeEnq (waiter : Nat) (item : PoolJob) (waits : s.blocked[waiter]? = some item) :
      Step s { s with
        blocked := s.blocked.eraseIdx waiter
        retrying := s.retrying ++ [item] }
  | retry {next : ThrPool} (waiter : Nat) (item : PoolJob) (waited : s.retrying[waiter]? = some item)
      (queued : ThrPool.Enq { s with retrying := s.retrying.eraseIdx waiter } item true next) :
      Step s next
  | destroy (idle : s.destructor = .idle) (quiet : s.Quiet) :
      Step s { s with destructor := .poisoning s.nthreads }
  | poison {next : ThrPool} (left : Nat) (poisons : s.destructor = .poisoning (left + 1))
      (queued : ThrPool.Enq { s with destructor := .poisoning left } none true next) : Step s next
  | join (poisoned : s.destructor = .poisoning 0) (quiet : s.Quiet)
      (joined : ∀ worker ∈ s.workers, worker = .exited) :
      Step s { s with destructor := .returned }

theorem ThrPool.takeJob_cases {s next : ThrPool} {index : Nat} {wakes : Option Nat} {worker : Worker}
    (here : s.workers[index]? = some worker) (up : worker = .ready ∨ worker = .woken)
    (taken : s.takeJob index wakes = some next) : s.Step next := by
  unfold ThrPool.takeJob Fifo.deq at taken
  cases queue : s.jobq.q with
  | nil =>
      rw [queue] at taken
      cases taken
      exact .sleep index worker here up queue
  | cons e rest =>
      rw [queue] at taken
      dsimp only at taken
      split at taken
      · cases wakes with
        | none =>
            obtain ⟨alone, same⟩ := Option.ite_none_right_eq_some.mp taken
            cases same
            exact .take index worker here up e rest queue (.inr (.inr alone))
        | some waiter =>
            obtain ⟨item, waits, same⟩ := Option.map_eq_some_iff.mp taken
            cases same
            exact .takeSignal index worker here up e rest queue waiter item waits
      · rename_i full
        cases taken
        refine .take index worker here up e rest queue ?_
        simp only [Fifo.spacious, decide_eq_true_eq, not_and_or, not_not, not_lt] at full
        exact full.imp_right .inl

theorem ThrPool.step_cases {s next : ThrPool} {action : PoolAction}
    (stepped : s.step action = some next) : s.Step next := by
  cases action with
  | addJob wakes =>
      obtain ⟨idle, queued⟩ := Option.ite_none_right_eq_some.mp stepped
      exact .call idle (ThrPool.enq_cases queued)
  | takeJob index wakes =>
      obtain ⟨up, taken⟩ := Option.ite_none_right_eq_some.mp stepped
      rcases up with ready | woken
      · exact ThrPool.takeJob_cases ready (.inl rfl) taken
      · exact ThrPool.takeJob_cases woken (.inr rfl) taken
  | execute index =>
      dsimp only [ThrPool.step] at stepped
      split at stepped
      · rename_i call here
        cases stepped
        exact .execute index call here
      · cases stepped
  | wakeWorker index =>
      obtain ⟨here, same⟩ := Option.ite_none_right_eq_some.mp stepped
      cases same
      exact .wakeWorker index here
  | wakeEnq index =>
      obtain ⟨item, waits, same⟩ := Option.map_eq_some_iff.mp stepped
      cases same
      exact .wakeEnq index item waits
  | retry index wakes =>
      obtain ⟨item, waited, queued⟩ := Option.bind_eq_some_iff.mp stepped
      exact .retry index item waited (ThrPool.enq_cases queued)
  | destroy =>
      obtain ⟨⟨idle, quiet⟩, same⟩ := Option.ite_none_right_eq_some.mp stepped
      cases same
      exact .destroy idle quiet
  | poison wakes =>
      dsimp only [ThrPool.step] at stepped
      split at stepped
      · rename_i left poisons
        obtain ⟨-, queued⟩ := Option.ite_none_right_eq_some.mp stepped
        exact .poison left poisons (ThrPool.enq_cases queued)
      · cases stepped
  | join =>
      obtain ⟨⟨poisoned, quiet, joined⟩, same⟩ := Option.ite_none_right_eq_some.mp stepped
      cases same
      exact .join poisoned quiet joined

theorem ThrPool.Accounted.executes {s : ThrPool} (accounted : s.Accounted []) {index call : Nat}
    (here : s.workers[index]? = some (.running call)) :
    ThrPool.Accounted [] { s with
      workers := s.workers.set index .ready
      executed := call :: s.executed } := by
  have exited : (s.workers.set index .ready).count .exited = s.workers.count .exited := by
    have counted := count_set_add .ready .exited here
    simpa using counted
  constructor
  · exact (List.length_set).trans accounted.size
  · intro other
    have was := accounted.jobs other
    have counted := count_set_add .ready (.running other) here
    by_cases same : call = other
    · subst same
      simp only [beq_self_eq_true, if_true, List.count_cons_self] at counted ⊢
      simp at counted
      omega
    · simp only [List.count_cons_of_ne same]
      simp [same] at counted
      omega
  · exact accounted.calls
  · have was := accounted.pills
    simp only [exited]
    omega
  · exact accounted.ordered
  · intro member
    apply accounted.last
    rw [← List.count_pos_iff] at member ⊢
    exact exited ▸ member
  · exact accounted.poisoned
  · intro other worker there
    rcases slot_set_cases there with ⟨rfl, rfl⟩ | ⟨-, before⟩
    · have was := accounted.taken other _ here
      exact was
    · exact accounted.taken other worker before

theorem ThrPool.Accounted.takes {s : ThrPool} (accounted : s.Accounted []) {index : Nat}
    {worker : Worker} {e : PoolJob} {rest : List PoolJob}
    (here : s.workers[index]? = some worker) (idle : ∀ call, worker ≠ .running call)
    (lives : worker ≠ .exited) (queue : s.jobq.q = e :: rest) :
    ThrPool.Accounted [] { s with
      jobq := { s.jobq with q := rest }
      workers := s.workers.set index (.took e)
      taken := (index, e) :: s.taken } := by
  have ordered := accounted.ordered
  rw [queue, List.pairwise_cons] at ordered
  constructor
  · exact (List.length_set).trans accounted.size
  · intro call
    have was := accounted.jobs call
    have counted := count_set_add (.took e) (.running call) here
    rw [queue] at was
    cases e with
    | none =>
        simp [idle, Worker.took] at counted was ⊢
        omega
    | some other =>
        simp [idle, Worker.took, List.count_cons] at counted was ⊢
        omega
  · exact accounted.calls
  · have was := accounted.pills
    have counted := count_set_add (.took e) .exited here
    rw [queue] at was
    cases e with
    | none =>
        simp [lives, Worker.took] at counted was ⊢
        omega
    | some other =>
        simp [lives, Worker.took] at counted was ⊢
        omega
  · exact ordered.2
  · intro member b queued
    cases e with
    | none => exact ordered.1 b queued rfl
    | some other =>
        apply accounted.last _ b (queue ▸ List.mem_cons_of_mem _ queued)
        have counted := count_set_add (.took (some other)) .exited here
        simp [lives, Worker.took] at counted
        rw [← List.count_pos_iff] at member ⊢
        exact counted ▸ member
  · exact accounted.poisoned
  · intro other next there
    rcases slot_set_cases there with ⟨rfl, rfl⟩ | ⟨apart, before⟩
    · have was := accounted.taken other worker here
      rw [if_neg lives] at was
      simp only [List.count_cons, was]
      cases e with
      | none => simp [Worker.took]
      | some call => simp [Worker.took]
    · have was := accounted.taken other next before
      rw [List.count_cons_of_ne (fun same => apart (Prod.mk.inj same).1.symm)]
      exact was

theorem ThrPool.Accounted.woke {transit : List PoolJob} {s : ThrPool}
    (accounted : s.Accounted transit) {index : Nat} {e : PoolJob}
    (here : s.blocked[index]? = some e) :
    ThrPool.Accounted transit { s with
      blocked := s.blocked.eraseIdx index
      retrying := s.retrying ++ [e] } := by
  have moved : ∀ x, (s.blocked.eraseIdx index).count x + (s.retrying ++ [e]).count x =
      s.blocked.count x + s.retrying.count x := by
    intro x
    have counted := count_eraseIdx_add here x
    rw [List.count_append, List.count_singleton]
    omega
  constructor
  · exact accounted.size
  · exact accounted.jobs
  · intro call
    have was := accounted.calls call
    have counted := moved (some call)
    simp only
    omega
  · have was := accounted.pills
    have counted := moved none
    simp only
    omega
  · exact accounted.ordered
  · exact accounted.last
  · intro begun
    obtain ⟨blocked, retrying, transit⟩ := accounted.poisoned begun
    refine ⟨fun other member => blocked other (List.mem_of_mem_eraseIdx member), ?_, transit⟩
    intro other member
    rcases List.mem_append.mp member with before | last
    · exact retrying other before
    · rw [List.mem_singleton.mp last]
      exact blocked e (List.mem_of_getElem? here)
  · exact accounted.taken

theorem ThrPool.Accounted.retries {s : ThrPool} (accounted : s.Accounted []) {index : Nat}
    {e : PoolJob} (here : s.retrying[index]? = some e) :
    ThrPool.Accounted [e] { s with retrying := s.retrying.eraseIdx index } := by
  have moved : ∀ x, (s.retrying.eraseIdx index).count x + [e].count x = s.retrying.count x := by
    intro x
    have counted := count_eraseIdx_add here x
    rw [List.count_singleton]
    exact counted
  constructor
  · exact accounted.size
  · exact accounted.jobs
  · intro call
    have was := accounted.calls call
    have counted := moved (some call)
    simp only [List.count_nil] at was ⊢
    omega
  · have was := accounted.pills
    have counted := moved none
    simp only [List.count_nil] at was ⊢
    omega
  · exact accounted.ordered
  · exact accounted.last
  · intro begun
    obtain ⟨blocked, retrying, -⟩ := accounted.poisoned begun
    refine ⟨blocked, fun other member => retrying other (List.mem_of_mem_eraseIdx member), ?_⟩
    intro other member
    rw [List.mem_singleton.mp member]
    exact retrying e (List.mem_of_getElem? here)
  · exact accounted.taken

theorem ThrPool.Accounted.calling {s : ThrPool} (accounted : s.Accounted [])
    (idle : s.destructor = .idle) :
    ThrPool.Accounted [some s.calls] { s with calls := s.calls + 1 } := by
  constructor
  · exact accounted.size
  · exact accounted.jobs
  · intro call
    have was := accounted.calls call
    simp only [List.count_singleton, List.count_nil] at was ⊢
    by_cases same : s.calls = call
    · subst same
      simp at was ⊢
      omega
    · have before : call < s.calls + 1 ↔ call < s.calls := by omega
      simpa [same, before] using was
  · have was := accounted.pills
    have other : [some s.calls].count (none : PoolJob) = 0 := rfl
    simp only [List.count_nil] at was ⊢
    omega
  · exact accounted.ordered
  · exact accounted.last
  · exact fun begun => absurd idle begun
  · exact accounted.taken

theorem Worker.up_plain {worker : Worker} (up : worker = .ready ∨ worker = .woken) :
    (∀ call, worker ≠ .running call) ∧ worker ≠ .exited := by
  rcases up with rfl | rfl
  · exact ⟨fun _ => Worker.noConfusion, Worker.noConfusion⟩
  · exact ⟨fun _ => Worker.noConfusion, Worker.noConfusion⟩

theorem ThrPool.Accounted.step {s next : ThrPool} (accounted : s.Accounted [])
    (stepped : s.Step next) : next.Accounted [] := by
  cases stepped with
  | call idle queued => exact (accounted.calling idle).enq queued (fun _ => rfl)
  | sleep index worker here up empty =>
      obtain ⟨idle, lives⟩ := Worker.up_plain up
      exact accounted.setWorker here idle lives (fun _ => Worker.noConfusion) Worker.noConfusion
  | take index worker here up e rest queue silent =>
      obtain ⟨idle, lives⟩ := Worker.up_plain up
      exact accounted.takes here idle lives queue
  | takeSignal index worker here up e rest queue waiter item waits =>
      obtain ⟨idle, lives⟩ := Worker.up_plain up
      exact (accounted.takes here idle lives queue).woke waits
  | execute index call here => exact accounted.executes here
  | wakeWorker index here =>
      exact accounted.setWorker here (fun _ => Worker.noConfusion) Worker.noConfusion
        (fun _ => Worker.noConfusion) Worker.noConfusion
  | wakeEnq waiter item waits => exact accounted.woke waits
  | retry waiter item waited queued => exact (accounted.retries waited).enq queued nofun
  | destroy idle quiet =>
      constructor
      · exact accounted.size
      · exact accounted.jobs
      · exact accounted.calls
      · have was := accounted.pills
        rw [if_pos idle] at was
        simp only [reduceCtorEq, if_false, Destructor.left]
        omega
      · exact accounted.ordered
      · exact accounted.last
      · intro _
        rw [quiet.1, quiet.2]
        exact ⟨nofun, nofun, nofun⟩
      · exact accounted.taken
  | poison left poisons queued =>
      refine ThrPool.Accounted.enq ?_ queued nofun
      constructor
      · exact accounted.size
      · exact accounted.jobs
      · intro call
        have was := accounted.calls call
        exact was
      · have was := accounted.pills
        simp only [poisons, reduceCtorEq, if_false, Destructor.left, List.count_nil,
          List.count_singleton_self] at was ⊢
        omega
      · exact accounted.ordered
      · exact accounted.last
      · intro _
        obtain ⟨blocked, retrying, -⟩ := accounted.poisoned (poisons ▸ Destructor.noConfusion)
        exact ⟨blocked, retrying, fun _ member => List.mem_singleton.mp member⟩
      · exact accounted.taken
  | join poisoned quiet joined =>
      constructor
      · exact accounted.size
      · exact accounted.jobs
      · exact accounted.calls
      · have was := accounted.pills
        simp only [poisoned, reduceCtorEq, if_false, Destructor.left] at was ⊢
        exact was
      · exact accounted.ordered
      · exact accounted.last
      · intro _
        exact accounted.poisoned (poisoned ▸ Destructor.noConfusion)
      · exact accounted.taken

end CseLab.Rpc
