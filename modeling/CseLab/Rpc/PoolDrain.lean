import CseLab.Rpc.PoolAccounts

/-! The signals of a thread pool's queue, and what they lead to: the queue is
within its limit, somebody is awake for what it holds, and the destructor and the
workers come to their end. -/

namespace CseLab.Rpc

open Counting Slots Transition

/-! ### Signals -/

def Worker.awake : Worker → Bool
  | .ready | .woken | .running _ => true
  | _ => false

/-- A queue that is not empty has a worker awake for each item, or has none asleep;
and while calls are blocked, the queue's free slots are no more than the calls woken,
of which `freed` are not counted. -/
structure ThrPool.Signalled (n freed : Nat) (s : ThrPool) : Prop where
  threads : s.nthreads = n
  limit : s.jobq.max = 100 * n
  bound : s.jobq.q.length ≤ s.jobq.max
  workers : .asleep ∉ s.workers ∨ s.jobq.q.length ≤ s.workers.countP Worker.awake
  producers : s.blocked = [] ∨ s.jobq.max ≤ s.jobq.q.length + s.retrying.length + freed

theorem ThrPool.Signalled.start (n : Nat) (blocking : Bool) :
    (ThrPool.start n blocking).Signalled n 0 := by
  constructor
  · rfl
  · rfl
  · exact Nat.zero_le _
  · exact .inr (Nat.zero_le _)
  · exact .inl rfl

theorem ThrPool.Signalled.enq {n : Nat} {s next : ThrPool} {e : PoolJob} {blocking : Bool}
    (signalled : s.Signalled n 1) (positive : 0 < n) (queued : s.Enq e blocking next) :
    next.Signalled n 0 := by
  have limit := signalled.limit
  cases queued with
  | quiet room awake =>
      constructor
      · exact signalled.threads
      · exact limit
      · simp only [List.length_append, List.length_singleton]
        omega
      · exact .inl awake
      · refine signalled.producers.imp_right fun woken => ?_
        simp only [List.length_append, List.length_singleton]
        omega
  | signal room index sleeps =>
      have behind := signalled.workers.resolve_left (fun none => none (List.mem_of_getElem? sleeps))
      have counted := @countP_set_add _ Worker.awake _ _ _ .woken sleeps
      simp only [Worker.awake, if_true, if_false, Bool.false_eq_true] at counted
      constructor
      · exact signalled.threads
      · exact limit
      · simp only [List.length_append, List.length_singleton]
        omega
      · refine .inr ?_
        simp only [List.length_append, List.length_singleton]
        omega
      · refine signalled.producers.imp_right fun woken => ?_
        simp only [List.length_append, List.length_singleton]
        omega
  | wait full blocks =>
      constructor
      · exact signalled.threads
      · exact limit
      · exact signalled.bound
      · exact signalled.workers
      · exact .inr (by simp only; omega)
  | refuse full returns =>
      constructor
      · exact signalled.threads
      · exact limit
      · exact signalled.bound
      · exact signalled.workers
      · exact .inr (by simp only; omega)

theorem ThrPool.Signalled.setWorker {n : Nat} {s : ThrPool} (signalled : s.Signalled n 0)
    {index : Nat} {old new : Worker} (here : s.workers[index]? = some old) (up : new.awake) :
    s.jobq.q.length ≤ (s.workers.set index new).countP Worker.awake ∨
      .asleep ∉ s.workers.set index new := by
  have counted := @countP_set_add _ Worker.awake _ _ _ new here
  rw [if_pos up] at counted
  rcases signalled.workers with none | behind
  · refine .inr (not_mem_set none ?_)
    rintro rfl
    cases up
  · refine .inl ?_
    split at counted <;> omega

theorem ThrPool.Signalled.take {n : Nat} {s : ThrPool} (signalled : s.Signalled n 0) {index : Nat}
    {worker : Worker} {e : PoolJob} {rest : List PoolJob}
    (here : s.workers[index]? = some worker) (up : worker.awake) (queue : s.jobq.q = e :: rest) :
    .asleep ∉ s.workers.set index (.took e) ∨
      rest.length ≤ (s.workers.set index (.took e)).countP Worker.awake := by
  have counted := @countP_set_add _ Worker.awake _ _ _ (.took e) here
  rw [if_pos up] at counted
  rcases signalled.workers with none | behind
  · refine .inl (not_mem_set none ?_)
    cases e with
    | none => exact Worker.noConfusion
    | some call => exact Worker.noConfusion
  · rw [queue, List.length_cons] at behind
    refine .inr ?_
    omega

theorem ThrPool.Signalled.step {n : Nat} {s next : ThrPool} (signalled : s.Signalled n 0)
    (positive : 0 < n) (stepped : s.Step next) : next.Signalled n 0 := by
  have limit := signalled.limit
  have bound := signalled.bound
  have loose : ∀ {s : ThrPool}, s.Signalled n 0 → s.Signalled n 1 := by
    intro s tight
    exact ⟨tight.threads, tight.limit, tight.bound, tight.workers,
      tight.producers.imp_right Nat.le_succ_of_le⟩
  have upAwake : ∀ {worker : Worker}, worker = .ready ∨ worker = .woken → worker.awake := by
    rintro worker (rfl | rfl)
    · rfl
    · rfl
  cases stepped with
  | call idle queued =>
      refine ThrPool.Signalled.enq ?_ positive queued
      exact loose ⟨signalled.threads, limit, bound, signalled.workers, signalled.producers⟩
  | sleep index worker here up empty =>
      constructor
      · exact signalled.threads
      · exact limit
      · exact bound
      · refine .inr ?_
        simp only [empty, List.length_nil, Nat.zero_le]
      · exact signalled.producers
  | take index worker here up e rest queue silent =>
      have shorter := congrArg List.length queue
      rw [List.length_cons] at shorter
      constructor
      · exact signalled.threads
      · exact limit
      · simp only
        omega
      · exact signalled.take here (upAwake up) queue
      · rcases silent with unbounded | full | alone
        · omega
        · exact .inr (by simp only; omega)
        · exact .inl alone
  | takeSignal index worker here up e rest queue waiter item waits =>
      have shorter := congrArg List.length queue
      rw [List.length_cons] at shorter
      have some : s.blocked ≠ [] := List.ne_nil_of_mem (List.mem_of_getElem? waits)
      have woken := signalled.producers.resolve_left some
      constructor
      · exact signalled.threads
      · exact limit
      · simp only
        omega
      · exact signalled.take here (upAwake up) queue
      · refine .inr ?_
        simp only [List.length_append, List.length_singleton]
        omega
  | execute index call here =>
      exact ⟨signalled.threads, limit, bound, (signalled.setWorker here rfl).symm,
        signalled.producers⟩
  | wakeWorker index here =>
      exact ⟨signalled.threads, limit, bound, (signalled.setWorker here rfl).symm,
        signalled.producers⟩
  | wakeEnq waiter item waits =>
      have some : s.blocked ≠ [] := List.ne_nil_of_mem (List.mem_of_getElem? waits)
      have woken := signalled.producers.resolve_left some
      constructor
      · exact signalled.threads
      · exact limit
      · exact bound
      · exact signalled.workers
      · refine .inr ?_
        simp only [List.length_append, List.length_singleton]
        omega
  | retry waiter item waited queued =>
      refine ThrPool.Signalled.enq ?_ positive queued
      obtain ⟨inside, -⟩ := List.getElem?_eq_some_iff.mp waited
      constructor
      · exact signalled.threads
      · exact limit
      · exact bound
      · exact signalled.workers
      · refine signalled.producers.imp_right fun woken => ?_
        simp only [List.length_eraseIdx_of_lt inside]
        omega
  | destroy idle quiet =>
      exact ⟨signalled.threads, limit, bound, signalled.workers, signalled.producers⟩
  | poison left poisons queued =>
      refine ThrPool.Signalled.enq ?_ positive queued
      exact loose ⟨signalled.threads, limit, bound, signalled.workers, signalled.producers⟩
  | join poisoned quiet joined =>
      exact ⟨signalled.threads, limit, bound, signalled.workers, signalled.producers⟩

/-! ### The end of the destructor -/

theorem ThrPool.Enq.destructor {s next : ThrPool} {e : PoolJob} {blocking : Bool}
    (queued : s.Enq e blocking next) : next.destructor = s.destructor := by
  cases queued with
  | quiet room awake => rfl
  | signal room index sleeps => rfl
  | wait full blocks => rfl
  | refuse full returns => rfl

def ThrPool.Joined (s : ThrPool) : Prop :=
  s.destructor = .returned → s.Quiet ∧ ∀ worker ∈ s.workers, worker = .exited

theorem ThrPool.Joined.step {s next : ThrPool} (joined : s.Joined) (stepped : s.Step next) :
    next.Joined := by
  intro returned
  have exited : ∀ {index : Nat} {worker : Worker}, s.destructor = .returned →
      s.workers[index]? = some worker → worker = .exited :=
    fun returned here => (joined returned).2 _ (List.mem_of_getElem? here)
  have waiting : ∀ {waiter : Nat} {item : PoolJob} (waits : List PoolJob),
      waits = [] → waits[waiter]? ≠ some item := by
    rintro waiter item waits rfl here
    cases here
  cases stepped with
  | call idle queued =>
      rw [queued.destructor] at returned
      cases idle.symm.trans returned
  | sleep index worker here up empty => exact absurd (exited returned here) (Worker.up_plain up).2
  | take index worker here up e rest queue silent =>
      exact absurd (exited returned here) (Worker.up_plain up).2
  | takeSignal index worker here up e rest queue waiter item waits =>
      exact absurd (exited returned here) (Worker.up_plain up).2
  | execute index call here => cases exited returned here
  | wakeWorker index here => cases exited returned here
  | wakeEnq waiter item waits => exact absurd waits (waiting _ (joined returned).1.1)
  | retry waiter item waited queued =>
      have returned : s.destructor = .returned := queued.destructor.symm.trans returned
      exact absurd waited (waiting _ (joined returned).1.2)
  | destroy idle quiet => cases returned
  | poison left poisons queued => cases queued.destructor.symm.trans returned
  | join poisoned quiet joined => exact ⟨quiet, joined⟩

/-! ### Nothing sleeps for ever -/

theorem ThrPool.Accounted.pill_of_exited {s : ThrPool} (accounted : s.Accounted []) {n : Nat}
    (threads : s.nthreads = n) (positive : 0 < n)
    (exited : ∀ worker ∈ s.workers, worker = .exited) : s.jobq.q = [] := by
  have whole : s.workers.count .exited = n := by
    rw [List.count_eq_length.mpr (fun worker member => (exited worker member).symm),
      accounted.size, threads]
  have pills := accounted.pills
  have none : s.jobq.q.count none = 0 := by
    split at pills <;> omega
  have some : .exited ∈ s.workers := List.count_pos_iff.mp (whole ▸ positive)
  cases queue : s.jobq.q with
  | nil => rfl
  | cons e rest =>
      have head : e = Option.none := accounted.last some e (queue ▸ List.mem_cons_self)
      rw [queue, head, List.count_cons_self] at none
      omega

/-- A queue that is not empty has a worker that does not sleep. -/
theorem ThrPool.Signalled.awake {n : Nat} {s : ThrPool} (signalled : s.Signalled n 0)
    (accounted : s.Accounted []) (positive : 0 < n) (queued : s.jobq.q ≠ []) :
    ∃ worker ∈ s.workers, worker.awake := by
  by_contra none
  have none : ∀ worker ∈ s.workers, ¬worker.awake := fun worker member up => none ⟨worker, member, up⟩
  rcases signalled.workers with sleepless | behind
  · refine queued (accounted.pill_of_exited signalled.threads positive ?_)
    intro worker member
    cases worker with
    | exited => rfl
    | asleep => exact absurd member sleepless
    | ready => exact absurd rfl (none _ member)
    | woken => exact absurd rfl (none _ member)
    | running call => exact absurd rfl (none _ member)
  · rw [List.countP_eq_zero.mpr none] at behind
    exact queued (List.length_eq_zero_iff.mp (Nat.le_zero.mp behind))

def PoolAction.unprompted : PoolAction → Bool
  | .wakeWorker _ | .wakeEnq _ => true
  | _ => false

theorem ThrPool.signalNonEmpty_some (s : ThrPool) : ∃ wakes, (s.signalNonEmpty wakes).isSome := by
  by_cases sleeps : .asleep ∈ s.workers
  · obtain ⟨index, here⟩ := List.getElem?_of_mem sleeps
    refine ⟨some index, ?_⟩
    rw [ThrPool.signalNonEmpty, if_pos here]
    rfl
  · refine ⟨none, ?_⟩
    rw [ThrPool.signalNonEmpty, if_neg sleeps]
    rfl

theorem ThrPool.enq_some (s : ThrPool) (e : PoolJob) (blocking : Bool) :
    ∃ wakes, (s.enq e blocking wakes).isSome := by
  unfold ThrPool.enq
  cases s.jobq.enq e with
  | some jobq => exact ThrPool.signalNonEmpty_some _
  | none => exact ⟨none, rfl⟩

theorem ThrPool.takeJob_some (s : ThrPool) (index : Nat) :
    ∃ wakes, (s.takeJob index wakes).isSome := by
  unfold ThrPool.takeJob
  cases s.jobq.deq with
  | none => exact ⟨none, rfl⟩
  | some taken =>
      obtain ⟨e, jobq⟩ := taken
      dsimp only
      split
      · cases waiting : s.blocked with
        | nil =>
            refine ⟨none, ?_⟩
            simp only [ThrPool.signalHasSpace, if_true, Option.isSome_some]
        | cons item rest =>
            refine ⟨some 0, ?_⟩
            simp only [ThrPool.signalHasSpace, List.getElem?_cons_zero, Option.map_some,
              Option.isSome_some]
      · exact ⟨none, rfl⟩

theorem ThrPool.awake_steps {s : ThrPool} {worker : Worker} (member : worker ∈ s.workers)
    (up : worker.awake) : ∃ action, action.unprompted = false ∧ (s.step action).isSome := by
  obtain ⟨index, here⟩ := List.getElem?_of_mem member
  cases worker with
  | ready =>
      obtain ⟨wakes, taken⟩ := s.takeJob_some index
      refine ⟨.takeJob index wakes, rfl, ?_⟩
      rw [ThrPool.step, if_pos (Or.inl here)]
      exact taken
  | woken =>
      obtain ⟨wakes, taken⟩ := s.takeJob_some index
      refine ⟨.takeJob index wakes, rfl, ?_⟩
      rw [ThrPool.step, if_pos (Or.inr here)]
      exact taken
  | running call =>
      refine ⟨.execute index, rfl, ?_⟩
      simp only [ThrPool.step, here, Option.isSome_some]
  | asleep => cases up
  | exited => cases up

/-- The destructor and the workers never wait for each other. -/
theorem ThrPool.Signalled.goes_on {n : Nat} {s : ThrPool} (signalled : s.Signalled n 0)
    (accounted : s.Accounted []) (positive : 0 < n) {left : Nat}
    (destroys : s.destructor = .poisoning left) :
    ∃ action, action.unprompted = false ∧ (s.step action).isSome := by
  have limit := signalled.limit
  by_cases queued : s.jobq.q = []
  · have noWaiter : s.retrying = [] → s.blocked = [] := by
      intro none
      refine signalled.producers.resolve_right ?_
      rw [queued, none, List.length_nil]
      omega
    cases retrying : s.retrying with
    | cons item rest =>
        obtain ⟨wakes, done⟩ :=
          ThrPool.enq_some { s with retrying := s.retrying.eraseIdx 0 } item true
        refine ⟨.retry 0 wakes, rfl, ?_⟩
        simp only [ThrPool.step, retrying, List.getElem?_cons_zero, Option.bind_some]
        rw [retrying] at done
        exact done
    | nil =>
        have quiet : s.Quiet := ⟨noWaiter retrying, retrying⟩
        cases left with
        | succ left =>
            obtain ⟨wakes, done⟩ := ThrPool.enq_some { s with destructor := .poisoning left } none true
            refine ⟨.poison wakes, rfl, ?_⟩
            simp only [ThrPool.step, destroys, if_pos quiet]
            exact done
        | zero =>
            have pills := accounted.pills
            rw [queued, quiet.1, quiet.2, destroys, if_neg Destructor.noConfusion] at pills
            simp only [List.count_nil, Destructor.left, Nat.add_zero, ← accounted.size] at pills
            refine ⟨.join, rfl, ?_⟩
            have exited : ∀ worker ∈ s.workers, worker = .exited :=
              fun worker member => (List.count_eq_length.mp pills worker member).symm
            rw [ThrPool.step, if_pos ⟨destroys, quiet, exited⟩]
            rfl
  · obtain ⟨worker, member, up⟩ := signalled.awake accounted positive queued
    exact ThrPool.awake_steps member up

theorem ThrPool.reachable {n : Nat} (positive : 0 < n) {blocking : Bool} {s : ThrPool}
    (reached : Reachable ThrPool.step (.start n blocking) s) :
    s.Accounted [] ∧ s.Signalled n 0 ∧ s.Joined := by
  have preserved : ∀ state action next,
      (state.Accounted [] ∧ state.Signalled n 0 ∧ state.Joined) →
      ThrPool.step state action = some next →
      next.Accounted [] ∧ next.Signalled n 0 ∧ next.Joined := by
    intro state action next ⟨accounted, signalled, joined⟩ taken
    have stepped := ThrPool.step_cases taken
    exact ⟨accounted.step stepped, signalled.step positive stepped, joined.step stepped⟩
  exact reached.invariant preserved ⟨.start n blocking, .start n blocking, nofun⟩

/-- Jobs and pills all find their worker, and the workers their end. -/
theorem pool_drains {n : Nat} (positive : 0 < n) {blocking : Bool} {s : ThrPool}
    (reached : Reachable ThrPool.step (.start n blocking) s) :
    s.jobq.q.length ≤ 100 * n ∧
    (s.jobq.q ≠ [] → ∃ worker ∈ s.workers, worker.awake) ∧
    (∀ call, s.executed.count call ≤ s.accepted.count call ∧
      s.accepted.count call + s.refused.count call ≤ 1) ∧
    (∀ index < n, s.taken.count (index, none) =
      if s.workers[index]? = some .exited then 1 else 0) ∧
    (∀ left, s.destructor = .poisoning left →
      ∃ action, action.unprompted = false ∧ (s.step action).isSome) ∧
    (s.destructor = .returned →
      s.jobq.q = [] ∧ (∀ index < n, s.workers[index]? = some .exited) ∧
      ∀ call < s.calls,
        (s.accepted.count call = 1 ∧ s.refused.count call = 0 ∧ s.executed.count call = 1) ∨
        (s.accepted.count call = 0 ∧ s.refused.count call = 1 ∧ s.executed.count call = 0)) := by
  obtain ⟨accounted, signalled, joined⟩ := ThrPool.reachable positive reached
  have size : s.workers.length = n := accounted.size.trans signalled.threads
  refine ⟨signalled.limit ▸ signalled.bound, signalled.awake accounted positive, ?_, ?_,
    fun left destroys => signalled.goes_on accounted positive destroys, ?_⟩
  · intro call
    have jobs := accounted.jobs call
    have calls := accounted.calls call
    constructor
    · omega
    · split at calls <;> omega
  · intro index inside
    have here := List.getElem?_eq_getElem (size.symm ▸ inside : index < s.workers.length)
    rw [accounted.taken index _ here, here]
    simp only [Option.some.injEq]
  · intro returned
    obtain ⟨quiet, exited⟩ := joined returned
    have empty := accounted.pill_of_exited signalled.threads positive exited
    refine ⟨empty, ?_, ?_⟩
    · intro index inside
      have here := List.getElem?_eq_getElem (size.symm ▸ inside : index < s.workers.length)
      rw [here, exited _ (List.mem_of_getElem? here)]
    · intro call known
      have jobs := accounted.jobs call
      have calls := accounted.calls call
      have none : s.workers.count (.running call) = 0 := by
        refine List.count_eq_zero_of_not_mem (fun member => ?_)
        cases exited _ member
      rw [empty, none] at jobs
      rw [if_pos known, quiet.1, quiet.2] at calls
      simp only [List.count_nil, Nat.add_zero] at jobs calls
      omega

private def drainRun : List PoolAction :=
  [.addJob none, .takeJob 0 none, .execute 0, .takeJob 0 none, .destroy, .poison (some 0),
    .takeJob 0 none, .join]

theorem pool_drains_one :
    ∃ s, run ThrPool.step (.start 1 false) drainRun = some s ∧ s.calls = 1 ∧
      s.executed.count 0 = 1 ∧ s.workers[0]? = some .exited := by
  have ran : (run ThrPool.step (.start 1 false) drainRun).isSome := by decide
  obtain ⟨s, ran⟩ := Option.isSome_iff_exists.mp ran
  have shape : (run ThrPool.step (.start 1 false) drainRun).map
      (fun s => (s.calls, s.destructor, s.accepted)) = some (1, .returned, [0]) := by decide
  rw [ran] at shape
  obtain ⟨calls, rest⟩ := Prod.mk.inj (Option.some.inj shape)
  obtain ⟨returned, accepted⟩ := Prod.mk.inj rest
  obtain ⟨-, -, -, -, -, drained⟩ := pool_drains Nat.one_pos ⟨drainRun, ran⟩
  obtain ⟨-, exited, jobs⟩ := drained returned
  refine ⟨s, ran, calls, ?_, exited 0 Nat.one_pos⟩
  rcases jobs 0 (calls ▸ Nat.one_pos) with ⟨-, -, once⟩ | ⟨refused, -, -⟩
  · exact once
  · rw [accepted] at refused
    cases refused

end CseLab.Rpc
