import CseLab.Rpc.Provenance

/-! A call that succeeds delivers what its handler returned, in the instance
that the client is bound to and in no other. -/

namespace CseLab.Rpc

open BigEndian Transition

variable {s next : Network}

/-- What clients hold, what calls have returned and what bind has stored all
comes from the jobs of the servers. -/
structure Network.Answers (s : Network) : Prop where
  callers : ∀ n, ∀ ca ∈ (s.clients n).calls,
    (∃ r ∈ s.requests, r.cltNonce = n ∧ r.xid = ca.xid) ∧
      (ca.done = true → 0 ≤ ca.intret →
        s.Given n { xid := ca.xid, ret := ca.intret, body := ca.un })
  returned : ∀ r ∈ s.returned,
    (∃ request ∈ s.requests, request.cltNonce = r.cltNonce ∧ request.xid = r.xid) ∧
      (0 ≤ r.ret → s.Given r.cltNonce { xid := r.xid, ret := r.ret, body := r.body })
  binds : ∀ result ∈ s.binds, ∃ m, m ≠ 0 ∧ result.2 = bytes32 m
  stored : ∀ bound ∈ s.stored, bound.2 ≠ 0
  bound : ∀ n, (s.clients n).bindDone = true → (n, (s.clients n).srvNonce) ∈ s.stored
  named : ∀ r ∈ s.requests, r.proc ≠ RpcConst.bind → (r.cltNonce, r.srvNonce) ∈ s.stored

theorem Network.Answers.start (procs : Nat → Bool) : (Network.start procs).Answers where
  callers := fun _n _ca member => absurd member List.not_mem_nil
  returned := fun _r member => absurd member List.not_mem_nil
  binds := fun _result member => absurd member List.not_mem_nil
  stored := fun _bound member => absurd member List.not_mem_nil
  bound := fun _n done => nomatch done
  named := fun _r member => absurd member List.not_mem_nil

/-- The job that a reply comes from, with the one request of its call. -/
theorem Network.Sound.origin (sound : s.Sound) {n : UInt32} {reply : Reply}
    (given : s.Given n reply) (valid : 0 ≤ reply.ret) {request : Request}
    (member : request ∈ s.requests) (client : request.cltNonce = n)
    (xid : request.xid = reply.xid) :
    ∃ m, m ≠ 0 ∧ ∃ job ∈ (s.servers m).jobs, job.stat = some .new ∧ job.request = request ∧
      job.reply = some reply := by
  obtain ⟨m, _job, _inside, _request, _client, _xid, first, _failed⟩ := sound.given given
  obtain ⟨first, earlier, ⟨ran, clt, same⟩, replied⟩ := first valid
  have ⟨named, packed⟩ := sound.served.jobs m first earlier
  refine ⟨m, named, first, earlier, ran, ?_, replied⟩
  exact sound.issued.distinct _ packed _ member (clt.trans client.symm) (same.trans xid.symm)

theorem Network.Sound.instance (sound : s.Sound) {m : UInt32} {job : Job}
    (member : job ∈ (s.servers m).jobs) (ran : job.stat = some .new)
    (bound : job.request.srvNonce ≠ 0) : m = job.request.srvNonce := by
  have accepted := ((sound.served.sound m).jobs job member).accepted
    (Or.inr (by rw [ran]; exact Option.some_ne_none _))
  rw [sound.served.nonce m] at accepted
  exact (accepted.resolve_left bound).symm

theorem Network.Sound.bindReply (sound : s.Sound) {n : UInt32} {xid : Nat} {body : List UInt8}
    (given : s.Given n { xid := xid, ret := 0, body := body })
    (isBind : s.isBind n xid = true) : ∃ m, m ≠ 0 ∧ body = bytes32 m := by
  obtain ⟨request, member, same⟩ := List.any_eq_true.mp isBind
  obtain ⟨client, sameXid, bind⟩ := of_decide_eq_true same
  obtain ⟨m, named, job, inside, ran, packed, replied⟩ :=
    sound.origin given (Int.le_refl 0) member client sameXid
  have result := (((sound.served.sound m).jobs job inside).result ran _ replied).2.2
  rw [packed, sound.served.nonce m] at result
  exact ⟨m, named, (result bind).2⟩

theorem Caller.result_nonneg {ca : Caller} (valid : 0 ≤ ca.result.1) :
    ca.done = true ∧ ca.result = (ca.intret, ca.un) := by
  unfold Caller.result at valid ⊢
  by_cases done : ca.done = true
  · rw [if_pos done]
    exact ⟨done, rfl⟩
  · rw [if_neg done] at valid
    exact absurd valid (by decide : ¬ 0 ≤ RpcConst.timeoutFailure)

private theorem Network.Steps.callers {action : NetworkAction} (steps : s.Steps action next)
    (sound : s.Sound) (answers : s.Answers) (n : UInt32) (ca : Caller)
    (member : ca ∈ (next.clients n).calls) :
    (∃ r ∈ next.requests, r.cltNonce = n ∧ r.xid = ca.xid) ∧
      (ca.done = true → 0 ≤ ca.intret →
        s.Given n { xid := ca.xid, ret := ca.intret, body := ca.un }) := by
  have before := answers.callers n
  cases steps with
  | refused _ _ _ | request _ _ _ _ _ _ _ _ _ | job _ _ _ _ _ => exact before ca member
  | call other proc args named c request called =>
      have kept : ca ∈ (s.clients n).calls →
          (∃ r ∈ request :: s.requests, r.cltNonce = n ∧ r.xid = ca.xid) ∧
          (ca.done = true → 0 ≤ ca.intret →
            s.Given n { xid := ca.xid, ret := ca.intret, body := ca.un }) := by
        intro inside
        obtain ⟨⟨r, packed, same⟩, given⟩ := before ca inside
        exact ⟨⟨r, List.mem_cons_of_mem _ packed, same⟩, given⟩
      change ca ∈ (Function.update s.clients other c n).calls at member
      by_cases same : n = other
      · subst same
        rw [Function.update_self] at member
        obtain ⟨_bind, _open, rfl, rfl⟩ := Rpcc.call1_ok called
        rcases Rpcc.mem_addCall member with rfl | inside
        · exact ⟨⟨_, List.mem_cons_self, sound.issued.nonce n, rfl⟩, fun done => nomatch done⟩
        · exact kept inside
      · rw [Function.update_of_ne same] at member
        exact kept member
  | leave other xid c result left binds bound =>
      change ca ∈ (Function.update s.clients other c n).calls at member
      by_cases same : n = other
      · subst same
        rw [Function.update_self] at member
        obtain ⟨_ca, _inside, _xid, _result, rfl⟩ := Rpcc.leave_some left
        exact before ca (Rpcc.mem_eraseCall member).1
      · rw [Function.update_of_ne same] at member
        exact before ca member
  | cancel other =>
      change ca ∈ (Function.update s.clients other _ n).calls at member
      by_cases same : n = other
      · subst same
        rw [Function.update_self] at member
        obtain ⟨earlier, inside, rfl⟩ := List.mem_map.mp member
        exact ⟨(before earlier inside).1,
          fun _done valid => absurd valid (by decide : ¬ 0 ≤ RpcConst.cancelFailure)⟩
      · rw [Function.update_of_ne same] at member
        exact before ca member
  | bind index other body inside =>
      change ca ∈ (Function.update s.clients other _ n).calls at member
      by_cases same : n = other
      · subst same
        rw [Function.update_self] at member
        exact before ca member
      · rw [Function.update_of_ne same] at member
        exact before ca member
  | reply index c reply sent =>
      change ca ∈ (Function.update s.clients c.owner _ n).calls at member
      by_cases same : n = c.owner
      · subst same
        rw [Function.update_self] at member
        obtain ⟨earlier, inside, rfl⟩ := List.mem_map.mp member
        have ⟨packed, given⟩ := before earlier inside
        rw [Caller.takeIn_xid]
        refine ⟨packed, ?_⟩
        unfold Caller.takeIn
        split
        · rename_i matched
          intro _done _valid
          rw [matched.1]
          exact sound.carried _ sent
        · exact given
      · rw [Function.update_of_ne same] at member
        exact before ca member

theorem Network.Answers.step (answers : s.Answers) (sound : s.Sound) {action : NetworkAction}
    (taken : s.step action = some next) : next.Answers := by
  have steps := Network.step_cases taken
  have given : ∀ {n : UInt32} {reply : Reply}, s.Given n reply → next.Given n reply :=
    fun before => steps.given sound before
  have callers : ∀ n, ∀ ca ∈ (next.clients n).calls,
      (∃ r ∈ next.requests, r.cltNonce = n ∧ r.xid = ca.xid) ∧
        (ca.done = true → 0 ≤ ca.intret →
          next.Given n { xid := ca.xid, ret := ca.intret, body := ca.un }) := by
    intro n ca member
    have ⟨request, before⟩ := steps.callers sound answers n ca member
    exact ⟨request, fun done valid => given (before done valid)⟩
  have returned : (∀ r ∈ s.requests, r ∈ next.requests) → ∀ r ∈ s.returned,
      (∃ request ∈ next.requests, request.cltNonce = r.cltNonce ∧ request.xid = r.xid) ∧
        (0 ≤ r.ret → next.Given r.cltNonce { xid := r.xid, ret := r.ret, body := r.body }) := by
    intro more r member
    obtain ⟨⟨request, packed, same⟩, before⟩ := answers.returned r member
    exact ⟨⟨request, more request packed, same⟩, fun valid => given (before valid)⟩
  cases steps with
  | refused n proc args => exact answers
  | request _ _ _ _ _ _ _ _ _ | job _ _ _ _ _ =>
      exact ⟨callers, returned (fun _r member => member), answers.binds, answers.stored,
        answers.bound, answers.named⟩
  | call n proc args named c request called =>
      obtain ⟨bind, _open, sameClient, packed⟩ := Rpcc.call1_ok called
      have bound : ∀ other, (Function.update s.clients n c other).bindDone = true →
          (other, (Function.update s.clients n c other).srvNonce) ∈ s.stored := by
        refine (Function.forall_update_iff s.clients
          (fun other c => c.bindDone = true → (other, c.srvNonce) ∈ s.stored)).mpr
          ⟨?_, fun other _different => answers.bound other⟩
        rw [sameClient]
        exact answers.bound n
      refine ⟨callers, returned (fun _r member => List.mem_cons_of_mem _ member),
        answers.binds, answers.stored, bound, ?_⟩
      intro r member other
      rcases List.mem_cons.mp member with rfl | before
      · rw [packed] at other ⊢
        have done : (s.clients n).bindDone = true := by
          by_contra undone
          exact other (bind.mpr (Bool.not_eq_true _ ▸ undone))
        rw [sound.issued.nonce n]
        exact answers.bound n done
      · exact answers.named r before other
  | leave n xid c result left binds bound =>
      obtain ⟨ca, member, rfl, sameResult, sameClient⟩ := Rpcc.leave_some left
      have ⟨request, before⟩ := answers.callers n ca member
      have held : 0 ≤ result.1 → s.Given n { xid := ca.xid, ret := result.1, body := result.2 } := by
        intro valid
        rw [sameResult] at valid ⊢
        obtain ⟨done, same⟩ := Caller.result_nonneg valid
        rw [same] at valid ⊢
        exact before done valid
      refine ⟨callers, ?_, ?_, answers.stored, ?_, answers.named⟩
      · intro r inside
        rcases List.mem_cons.mp inside with rfl | earlier
        · exact ⟨request, fun valid => given (held valid)⟩
        · exact returned (fun _r member => member) r earlier
      · intro bind inside
        rcases bound with rfl | ⟨rfl, zero, isBind⟩
        · exact answers.binds bind inside
        · rcases List.mem_cons.mp inside with rfl | earlier
          · have answer := held (Int.le_of_eq zero.symm)
            rw [zero] at answer
            exact sound.bindReply answer isBind
          · exact answers.binds bind earlier
      · refine (Function.forall_update_iff s.clients
          (fun other c => c.bindDone = true → (other, c.srvNonce) ∈ s.stored)).mpr
          ⟨?_, fun other _different => answers.bound other⟩
        rw [sameClient]
        exact answers.bound n
  | cancel n =>
      refine ⟨callers, returned (fun _r member => member), answers.binds, answers.stored, ?_,
        answers.named⟩
      exact (Function.forall_update_iff s.clients
        (fun other c => c.bindDone = true → (other, c.srvNonce) ∈ s.stored)).mpr
        ⟨answers.bound n, fun other _different => answers.bound other⟩
  | bind index n body member =>
      obtain ⟨m, named, same⟩ := answers.binds _ member
      change body = bytes32 m at same
      have nonce : word32 body = m := by
        rw [same, ← List.append_nil (bytes32 m)]
        exact word32_bytes32 m []
      refine ⟨callers, returned (fun _r member => member), ?_, ?_, ?_, ?_⟩
      · exact fun result inside => answers.binds result (List.mem_of_mem_eraseIdx inside)
      · intro bound inside
        rcases List.mem_cons.mp inside with rfl | before
        · rw [nonce]
          exact named
        · exact answers.stored bound before
      · exact (Function.forall_update_iff s.clients
          (fun other c => c.bindDone = true →
            (other, c.srvNonce) ∈ (n, word32 body) :: s.stored)).mpr
          ⟨fun _done => List.mem_cons_self,
            fun other _different done => List.mem_cons_of_mem _ (answers.bound other done)⟩
      · exact fun r inside other => List.mem_cons_of_mem _ (answers.named r inside other)
  | reply index c reply sent =>
      refine ⟨callers, returned (fun _r member => member), answers.binds, answers.stored, ?_,
        answers.named⟩
      exact (Function.forall_update_iff s.clients
        (fun other c => c.bindDone = true → (other, c.srvNonce) ∈ s.stored)).mpr
        ⟨answers.bound c.owner, fun other _different => answers.bound other⟩

theorem Network.Reached.sound {procs : Nat → Bool}
    (reached : Reachable Network.step (.start procs) s) : s.Sound ∧ s.Answers := by
  have preserved : ∀ (s : Network) action next, s.Sound ∧ s.Answers →
      s.step action = some next → next.Sound ∧ next.Answers :=
    fun s action next holds taken => ⟨holds.1.step taken, holds.2.step holds.1 taken⟩
  exact Reachable.invariant preserved ⟨Network.Sound.start procs, Network.Answers.start procs⟩
    reached

/-- Whatever the network does and however often servers restart, a call that
returns without failure delivers what its procedure returned for its own
arguments, in the one instance that the client had bound to; no other instance
ever calls the handler for it. -/
theorem call_agrees {procs : Nat → Bool} {r : Returned}
    (reached : Reachable Network.step (.start procs) s) (member : r ∈ s.returned)
    (valid : 0 ≤ r.ret) :
    ∃ request ∈ s.requests, request.cltNonce = r.cltNonce ∧ request.xid = r.xid ∧
      (∀ other ∈ s.requests, other.cltNonce = r.cltNonce → other.xid = r.xid → other = request) ∧
      (request.proc ≠ RpcConst.bind →
        (r.cltNonce, request.srvNonce) ∈ s.stored ∧
        (∃ job ∈ (s.servers request.srvNonce).jobs, job.stat = some .new ∧
          job.request = request ∧
          job.reply = some { xid := r.xid, ret := r.ret, body := r.body }) ∧
        ∀ m, ∀ job ∈ (s.servers m).jobs, job.Handled r.cltNonce r.xid →
          m = request.srvNonce) := by
  have ⟨sound, answers⟩ := Network.Reached.sound reached
  obtain ⟨⟨request, packed, client, xid⟩, given⟩ := answers.returned r member
  have same : ∀ other ∈ s.requests, other.cltNonce = r.cltNonce → other.xid = r.xid →
      other = request :=
    fun other inside clt number => sound.issued.distinct other inside request packed
      (clt.trans client.symm) (number.trans xid.symm)
  refine ⟨request, packed, client, xid, same, ?_⟩
  intro proc
  have stored := answers.named request packed proc
  have bound : request.srvNonce ≠ 0 := answers.stored _ stored
  refine ⟨client ▸ stored, ?_, ?_⟩
  · obtain ⟨m, _named, job, inside, ran, own, replied⟩ :=
      sound.origin (given valid) valid packed client xid
    have here := sound.instance inside ran (own ▸ bound)
    rw [own] at here
    exact ⟨job, here ▸ inside, ran, own, replied⟩
  · intro m job inside ⟨ran, clt, number⟩
    have own := same job.request (sound.served.jobs m job inside).2 clt number
    have here := sound.instance inside ran (own ▸ bound)
    rw [own] at here
    exact here

def dispatchActions (m : UInt32) (index : Nat) (ret : Int) (body : List UInt8) :
    List NetworkAction :=
  [.job m index .prepare, .job m index .check, .job m index (.handle ret body),
    .job m index .record, .job m index (.choose false), .job m index .send]

def bindActions : List NetworkAction :=
  [.call 5 RpcConst.bind [0, 0, 0, 0], .request 9 0 sampleConn] ++
    dispatchActions 9 0 0 (bytes32 9) ++ [.reply 0, .leave 5 1, .bind 0]

def callActions : List NetworkAction :=
  bindActions ++ [.call 5 2 [1], .request 9 0 sampleConn] ++ dispatchActions 9 1 3 [7] ++
    [.reply 0, .leave 5 2]

def sampleReturned : Returned := { cltNonce := 5, xid := 2, ret := 3, body := [7] }

theorem call_agrees_sample : ∃ s,
    run Network.step (.start (fun proc => proc = 2)) callActions = some s ∧
      sampleReturned ∈ s.returned ∧
      ∃ request ∈ s.requests, request.cltNonce = 5 ∧ request.xid = 2 ∧
        (∀ other ∈ s.requests, other.cltNonce = 5 → other.xid = 2 → other = request) ∧
        (request.proc ≠ RpcConst.bind →
          (5, request.srvNonce) ∈ s.stored ∧
          (∃ job ∈ (s.servers request.srvNonce).jobs, job.stat = some .new ∧
            job.request = request ∧ job.reply = some { xid := 2, ret := 3, body := [7] }) ∧
          ∀ m, ∀ job ∈ (s.servers m).jobs, job.Handled 5 2 → m = request.srvNonce) :=
  ⟨_, rfl, by decide, @call_agrees _ (fun proc => proc = 2) sampleReturned ⟨callActions, rfl⟩
    (by decide) (by decide)⟩

end CseLab.Rpc
