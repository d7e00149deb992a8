import CseLab.Rpc.ExtentService
import CseLab.Rpc.Serial

/-! Between its call and its return every call that succeeds has been executed once,
and what it returns is what the object of the instance gave at that moment. Where
handlers do not overlap, the history is that of one object that takes one call at a
time. -/

namespace CseLab.Rpc

open Slots Transition

variable {Obj Op Answer Uninit : Type} {act : Obj → Op → Obj × Answer}
  {service : Nat → Option (Handler act Uninit)} {d next : Deployment Obj Op Answer Uninit}

/-! ### Jobs and executions -/

/-- Only the handler gives a job a reply that is not a refusal. -/
theorem Rpcs.Acts.replied {s server : Rpcs} {job after : Job} {action : JobAction}
    (acts : s.Acts job action server after) (sound : job.Sound s.nonce)
    (ran : after.stat = some .new) {reply : Reply} (replied : after.reply = some reply) :
    (job.stat = some .new ∧ job.reply = some reply) ∨
      (job.phase = .running ∧ ∃ ret body, action = .handle ret body ∧
        reply = { xid := job.request.xid, ret := ret, body := body }) := by
  cases acts with
  | handle running ret body valid bind =>
      cases replied
      exact .inr ⟨running, ret, body, rfl, rfl⟩
  | check admitted stat b rlist checked =>
      have silent := (sound.waiting (Or.inr admitted)).2
      cases stat with
      | new =>
          change job.reply = some reply at replied
          rw [silent] at replied
          cases replied
      | inProgress | done | forgotten => cases ran
  | direct queued _ _ =>
      change job.reply = some reply at replied
      rw [(sound.waiting (Or.inl queued)).2] at replied
      cases replied
  | oldServer queued _ _ =>
      change job.stat = some .new at ran
      rw [(sound.waiting (Or.inl queued)).1] at ran
      cases ran
  | prepare _ _ _ | record _ | keep _ _ _ | reroute _ _ _ | send _ => exact .inl ⟨ran, replied⟩

theorem Network.Steps.keeps {s after : Network} {action : NetworkAction}
    (steps : s.Steps action after) (sound : s.Sound) {m : UInt32} {job : Job}
    (member : job ∈ (s.servers m).jobs) (ran : job.stat = some .new) {reply : Reply}
    (replied : job.reply = some reply) :
    ∃ later ∈ (after.servers m).jobs, later.stat = some .new ∧ later.request = job.request ∧
      later.reply = some reply := by
  have moved : (∃ act, (s.servers m).step act = some (after.servers m)) →
      ∃ later ∈ (after.servers m).jobs, later.stat = some .new ∧ later.request = job.request ∧
        later.reply = some reply := by
    rintro ⟨act, taken⟩
    obtain ⟨later, inside, kept⟩ := Rpcs.later_step (sound.served.sound m) taken job member
    refine ⟨later, inside, ?_, kept.request, ?_⟩
    · rw [kept.stat (by rw [ran]; exact Option.some_ne_none _), ran]
    · rw [kept.reply (by rw [replied]; exact Option.some_ne_none _), replied]
  rcases steps.server m with same | ⟨c, request, taken⟩ | ⟨index, act, -, taken⟩
  · rw [same]
    exact ⟨job, member, ran, rfl, replied⟩
  · exact moved ⟨_, taken⟩
  · exact moved ⟨_, taken⟩

/-- An answered job was answered before, or its handler has just returned. -/
theorem Network.Steps.replied {s after : Network} {action : NetworkAction}
    (steps : s.Steps action after) (sound : s.Sound) {m : UInt32} {later : Job}
    (member : later ∈ (after.servers m).jobs) (ran : later.stat = some .new) {reply : Reply}
    (replied : later.reply = some reply) :
    (∃ job ∈ (s.servers m).jobs, job.stat = some .new ∧ job.request = later.request ∧
        job.reply = some reply) ∨
      ∃ index job ret body, action = .job m index (.handle ret body) ∧
        (s.servers m).jobs[index]? = some job ∧ later.request = job.request ∧
        reply = { xid := job.request.xid, ret := ret, body := body } := by
  rcases steps.server m with same | ⟨c, request, taken⟩ | ⟨index, act, rfl, taken⟩
  · rw [same] at member
    exact .inl ⟨later, member, ran, rfl, replied⟩
  · rw [← Option.some.inj taken] at member
    rcases List.mem_append.mp member with before | last
    · exact .inl ⟨later, before, ran, rfl, replied⟩
    · rw [List.mem_singleton.mp last] at ran
      cases ran
  · obtain ⟨job, shared, moved, here, acts, same⟩ := Rpcs.step_job taken
    rw [same] at member
    have inside := List.mem_of_getElem? here
    have jobSound := (sound.served.sound m).jobs job inside
    rcases List.mem_or_eq_of_mem_set member with before | rfl
    · exact .inl ⟨later, before, ran, rfl, replied⟩
    · have request := (acts.later jobSound).request
      rcases acts.replied jobSound ran replied with ⟨stat, reply⟩ | ⟨-, ret, body, rfl, same⟩
      · exact .inl ⟨job, inside, stat, request.symm, reply⟩
      · exact .inr ⟨index, job, ret, body, rfl, here, request, same⟩

theorem Network.Steps.handled {s after : Network} {m : UInt32} {index : Nat} {ret : Int}
    {body : List UInt8} (steps : s.Steps (.job m index (.handle ret body)) after)
    (sound : s.Sound) {job : Job} (here : (s.servers m).jobs[index]? = some job) :
    job.phase = .running ∧ after.requests = s.requests ∧
      ∃ later ∈ (after.servers m).jobs, later.stat = some .new ∧ later.request = job.request ∧
        later.reply = some { xid := job.request.xid, ret := ret, body := body } := by
  cases steps with
  | job m index action server taken =>
      obtain ⟨same, shared, moved, there, acts, rfl⟩ := Rpcs.step_job taken
      cases here.symm.trans there
      have ran := (sound.served.sound m).jobs job (List.mem_of_getElem? here)
      have placed : moved ∈ (Function.update s.servers m
          { shared with jobs := (s.servers m).jobs.set index moved } m).jobs := by
        rw [Function.update_self]
        exact mem_set_self here
      cases acts with
      | handle running ret body valid bind =>
          exact ⟨running, rfl, _, placed, (ran.running running).1, rfl, rfl⟩

/-! ### The invariant -/

def ExecutedAt (history : List (Event Uninit)) (k : Nat) (m : UInt32) (request : Request)
    (ret : Int) (body : List UInt8) : Prop :=
  ∃ found, history[k]? = some (.executed m request found ret body)

def CalledBefore (history : List (Event Uninit)) (k : Nat) (request : Request) : Prop :=
  ∃ c < k, history[c]? = some (.called request)

structure Deployment.Tracked (service : Nat → Option (Handler act Uninit))
    (d : Deployment Obj Op Answer Uninit) : Prop where
  reached : Reachable Network.step (.start fun proc => (service proc).isSome) d.network
  called : ∀ request ∈ d.network.requests, CalledBefore d.history d.history.length request
  issued : ∀ (c : Nat) (request : Request), d.history[c]? = some (.called request) → request ∈ d.network.requests
  calledOnce : ∀ (b c : Nat) (first second : Request), d.history[b]? = some (.called first) →
    d.history[c]? = some (.called second) → first.cltNonce = second.cltNonce →
    first.xid = second.xid → b = c
  executed : ∀ m, ∀ job ∈ (d.network.servers m).jobs, job.stat = some .new →
    ∀ reply, job.reply = some reply →
      ∃ k, ExecutedAt d.history k m job.request reply.ret reply.body
  ran : ∀ k m request ret body, ExecutedAt d.history k m request ret body →
    CalledBefore d.history k request ∧
      ∃ job ∈ (d.network.servers m).jobs, job.stat = some .new ∧ job.request = request ∧
        job.reply = some { xid := request.xid, ret := ret, body := body }
  once : ∀ i j m first second ret body ret' body', ExecutedAt d.history i m first ret body →
    ExecutedAt d.history j m second ret' body' → first.cltNonce = second.cltNonce →
    first.xid = second.xid → i = j
  returned : ∀ k r, d.history[k]? = some (.returned r) → 0 ≤ r.ret →
    ∃ request, request.cltNonce = r.cltNonce ∧ request.xid = r.xid ∧
      CalledBefore d.history k request ∧
      (request.proc ≠ RpcConst.bind → ∃ j < k,
        ExecutedAt d.history j request.srvNonce request r.ret r.body)

theorem Deployment.Tracked.start (obj : Obj) : (Deployment.start service obj).Tracked service where
  reached := .refl _
  called := fun _request member => absurd member List.not_mem_nil
  issued := fun _c _request here => nomatch here
  calledOnce := fun _b _c _first _second here => nomatch here
  executed := fun _m _job member => absurd member List.not_mem_nil
  ran := fun _k _m _request _ret _body ⟨_found, here⟩ => nomatch here
  once := fun _i _j _m _first _second _ret _body _ret' _body' ⟨_found, here⟩ => nomatch here
  returned := fun _k _r here => nomatch here

/-! ### Steps -/

section Append

variable {history : List (Event Uninit)} {k : Nat} {m : UInt32} {request : Request} {ret : Int}
  {body : List UInt8}

theorem ExecutedAt.append (executed : ExecutedAt history k m request ret body)
    (more : List (Event Uninit)) : ExecutedAt (history ++ more) k m request ret body := by
  obtain ⟨found, here⟩ := executed
  refine ⟨found, ?_⟩
  rw [List.getElem?_append_left (List.getElem?_eq_some_iff.mp here).1]
  exact here

theorem ExecutedAt.lt (executed : ExecutedAt history k m request ret body) :
    k < history.length := by
  obtain ⟨found, here⟩ := executed
  exact (List.getElem?_eq_some_iff.mp here).1

theorem CalledBefore.append (called : CalledBefore history k request)
    (more : List (Event Uninit)) : CalledBefore (history ++ more) k request := by
  obtain ⟨c, earlier, here⟩ := called
  refine ⟨c, earlier, ?_⟩
  rw [List.getElem?_append_left (List.getElem?_eq_some_iff.mp here).1]
  exact here

theorem CalledBefore.mono (called : CalledBefore history k request) {later : Nat}
    (after : k ≤ later) : CalledBefore history later request := by
  obtain ⟨c, earlier, here⟩ := called
  exact ⟨c, earlier.trans_le after, here⟩

theorem event_append_cases {more : List (Event Uninit)} {event : Event Uninit}
    (there : (history ++ more)[k]? = some event) :
    history[k]? = some event ∨ (history.length ≤ k ∧ event ∈ more) := by
  rcases Nat.lt_or_ge k history.length with inside | outside
  · rw [List.getElem?_append_left inside] at there
    exact .inl there
  · rw [List.getElem?_append_right outside] at there
    exact .inr ⟨outside, List.mem_of_getElem? there⟩

variable {found : Found Uninit} {asked : Request}

theorem executedAt_concat {other : UInt32} {ret' : Int} {body' : List UInt8}
    (executed : ExecutedAt (history ++ [.executed m request found ret body]) k other asked ret'
      body') :
    ExecutedAt history k other asked ret' body' ∨
      (k = history.length ∧ other = m ∧ asked = request ∧ ret' = ret ∧ body' = body) := by
  have inside := executed.lt
  obtain ⟨found', there⟩ := executed
  rcases event_append_cases there with before | ⟨outside, new⟩
  · exact .inl ⟨found', before⟩
  · cases List.mem_singleton.mp new
    rw [List.length_append, List.length_singleton] at inside
    exact .inr ⟨by omega, rfl, rfl, rfl, rfl⟩

theorem called_concat
    (there : (history ++ [.executed m request found ret body])[k]? = some (.called asked)) :
    history[k]? = some (.called asked) := by
  rcases event_append_cases there with before | ⟨-, new⟩
  · exact before
  · cases List.mem_singleton.mp new

theorem executedAt_events {s : Network} {action : NetworkAction}
    (executed : ExecutedAt (history ++ s.events action) k m request ret body) :
    ExecutedAt history k m request ret body := by
  obtain ⟨found, here⟩ := executed
  rcases event_append_cases here with before | ⟨_outside, new⟩
  · exact ⟨found, before⟩
  · rcases Network.mem_events new with ⟨_n, _proc, _args, _c, _request, _, _, same⟩ |
      ⟨_n, _x, _c, _ret, _body, _, _, same⟩ <;> cases same

end Append

theorem Network.Steps.requests {s after : Network} {action : NetworkAction}
    (steps : s.Steps action after) {request : Request} (member : request ∈ s.requests) :
    request ∈ after.requests := by
  cases steps with
  | call _ _ _ _ _ _ _ => exact List.mem_cons_of_mem _ member
  | refused _ _ _ | leave _ _ _ _ _ _ _ | cancel _ | bind _ _ _ _ | request _ _ _ _ _ _ _ _ _
  | reply _ _ _ _ | job _ _ _ _ _ => exact member

theorem Network.Steps.called {s after : Network} {action : NetworkAction}
    (steps : s.Steps action after) {request : Request} (member : request ∈ after.requests) :
    request ∈ s.requests ∨ (s.events action : List (Event Uninit)) = [.called request] := by
  cases steps with
  | call n proc args named c fresh called =>
      rcases List.mem_cons.mp member with rfl | before
      · right
        dsimp only [Network.events]
        rw [called]
      · exact .inl before
  | refused _ _ _ | leave _ _ _ _ _ _ _ | cancel _ | bind _ _ _ _ | request _ _ _ _ _ _ _ _ _
  | reply _ _ _ _ | job _ _ _ _ _ => exact .inl member

section Network

variable {network : Network} {action : NetworkAction}

/-- A call that returns without failure has been executed. -/
theorem Deployment.Tracked.answered (tracked : d.Tracked service) {n : UInt32} {x : Nat}
    (taken : d.network.step (.leave n x) = some network) {c : Rpcc} {ret : Int}
    {body : List UInt8} (left : (d.network.clients n).leave x = some (c, ret, body))
    (valid : 0 ≤ ret) :
    ∃ request, request.cltNonce = n ∧ request.xid = x ∧
      CalledBefore d.history d.history.length request ∧
      (request.proc ≠ RpcConst.bind →
        ∃ j, ExecutedAt d.history j request.srvNonce request ret body) := by
  have reached := tracked.reached.next taken
  dsimp only [Network.step] at taken
  rw [left] at taken
  cases taken
  obtain ⟨request, member, client, xid, -, agrees⟩ := call_agrees reached List.mem_cons_self valid
  refine ⟨request, client, xid, tracked.called request member, ?_⟩
  intro other
  obtain ⟨-, ⟨job, inside, ran, rfl, replied⟩, -⟩ := agrees other
  exact tracked.executed _ job inside ran _ replied

/-- A call gets an xid that no call of its client had before. -/
theorem Deployment.Tracked.newCall (tracked : d.Tracked service)
    (taken : d.network.step action = some network) {c : Nat} {request : Request}
    (outside : d.history.length ≤ c)
    (there : (d.history ++ d.network.events action)[c]? = some (.called request)) :
    c = d.history.length ∧ request ∈ network.requests ∧
      ∀ earlier ∈ d.network.requests, earlier.cltNonce = request.cltNonce →
        earlier.xid ≠ request.xid := by
  have ⟨sound, _answers⟩ := Network.Reached.sound tracked.reached
  rw [List.getElem?_append_right outside] at there
  rcases Network.mem_events (List.mem_of_getElem? there) with
    ⟨n, proc, args, client, asked, rfl, called, same⟩ | ⟨_n, _x, _c, _ret, _body, _, _, same⟩
  · cases same
    have events : (d.network.events (.call n proc args) : List (Event Uninit)) =
        [.called request] := by
      dsimp only [Network.events]
      rw [called]
    rw [events] at there
    have alone := (List.getElem?_eq_some_iff.mp there).1
    rw [List.length_singleton] at alone
    obtain ⟨-, -, -, packed⟩ := Rpcc.call1_ok called
    refine ⟨by omega, ?_, ?_⟩
    · dsimp only [Network.step] at taken
      rw [called] at taken
      obtain ⟨-, same⟩ := Option.ite_none_left_eq_some.mp taken
      cases same
      exact List.mem_cons_self
    · intro earlier member same number
      have issued := (sound.issued.requests earlier member).issued
      rw [packed] at same number
      rw [same, number, sound.issued.nonce n] at issued
      exact Nat.lt_irrefl _ issued
  · cases same

theorem Deployment.Tracked.calls (tracked : d.Tracked service)
    (taken : d.network.step action = some network) :
    (∀ (c : Nat) (request : Request), (d.history ++ d.network.events action)[c]? = some (.called request) →
      request ∈ network.requests) ∧
    ∀ (b c : Nat) (first second : Request), (d.history ++ d.network.events action)[b]? = some (.called first) →
      (d.history ++ d.network.events action)[c]? = some (.called second) →
      first.cltNonce = second.cltNonce → first.xid = second.xid → b = c := by
  have kept : ∀ request ∈ d.network.requests, request ∈ network.requests :=
    fun _request member => (Network.step_cases taken).requests member
  refine ⟨?_, ?_⟩
  · intro c request there
    rcases Nat.lt_or_ge c d.history.length with inside | outside
    · rw [List.getElem?_append_left inside] at there
      exact kept request (tracked.issued c request there)
    · exact (tracked.newCall taken outside there).2.1
  · intro b c first second left right client xid
    rcases Nat.lt_or_ge b d.history.length with inside | outside
    · rw [List.getElem?_append_left inside] at left
      rcases Nat.lt_or_ge c d.history.length with within | beyond
      · rw [List.getElem?_append_left within] at right
        exact tracked.calledOnce b c first second left right client xid
      · obtain ⟨-, -, unused⟩ := tracked.newCall taken beyond right
        exact absurd xid (unused first (tracked.issued b first left) client)
    · obtain ⟨last, -, unused⟩ := tracked.newCall taken outside left
      rcases Nat.lt_or_ge c d.history.length with within | beyond
      · rw [List.getElem?_append_left within] at right
        exact absurd xid.symm (unused second (tracked.issued c second right) client.symm)
      · exact last.trans (tracked.newCall taken beyond right).1.symm

theorem Deployment.Tracked.quiet (tracked : d.Tracked service)
    (plain : action.handles = false) (taken : d.network.step action = some network) :
    Deployment.Tracked service
      { d with network := network, history := d.history ++ d.network.events action } := by
  have steps := Network.step_cases taken
  have ⟨sound, _answers⟩ := Network.Reached.sound tracked.reached
  have reached := tracked.reached.next taken
  have ⟨issued, calledOnce⟩ := tracked.calls taken
  refine ⟨reached, ?_, issued, calledOnce, ?_, ?_, ?_, ?_⟩
  · intro request member
    rcases @Network.Steps.called Uninit _ _ _ steps _ member with before | events
    · exact ((tracked.called request before).append _).mono (by simp)
    · refine ⟨d.history.length, ?_, ?_⟩
      · dsimp only
        rw [events]
        simp
      · dsimp only
        rw [events]
        simp
  · intro m later member ran reply replied
    rcases steps.replied sound member ran replied with
      ⟨job, inside, stat, request, same⟩ | ⟨index, job, ret, body, rfl, -⟩
    · obtain ⟨k, executed⟩ := tracked.executed m job inside stat reply same
      rw [← request]
      exact ⟨k, executed.append _⟩
    · cases plain
  · intro k m request ret body executed
    obtain ⟨called, job, member, stat, same, replied⟩ :=
      tracked.ran k m request ret body (executedAt_events executed)
    obtain ⟨later, inside, ran, kept, reply⟩ := steps.keeps sound member stat replied
    exact ⟨called.append _, later, inside, ran, kept.trans same, reply⟩
  · intro i j m first second ret body ret' body' left right
    exact tracked.once i j m first second ret body ret' body' (executedAt_events left)
      (executedAt_events right)
  · intro k r here valid
    rcases event_append_cases here with before | ⟨outside, new⟩
    · obtain ⟨request, client, xid, called, executed⟩ := tracked.returned k r before valid
      refine ⟨request, client, xid, called.append _, fun other => ?_⟩
      obtain ⟨j, earlier, executed⟩ := executed other
      exact ⟨j, earlier, executed.append _⟩
    · rcases Network.mem_events new with ⟨_n, _proc, _args, _c, _request, _, _, same⟩ |
        ⟨n, x, c, ret, body, rfl, left, same⟩
      · cases same
      · cases same
        obtain ⟨request, client, xid, called, executed⟩ := tracked.answered taken left valid
        refine ⟨request, client, xid, (called.append _).mono outside, fun other => ?_⟩
        obtain ⟨j, executed⟩ := executed other
        exact ⟨j, executed.lt.trans_le outside, executed.append _⟩

/-- No request of a job that is in its handler has been executed: the job of that
execution would be this one, and answered. -/
theorem Deployment.Tracked.unexecuted (tracked : d.Tracked service) {m : UInt32} {index : Nat}
    {job : Job} (here : (d.network.servers m).jobs[index]? = some job)
    (phase : job.phase = .running) {k : Nat} {request : Request} {ret : Int} {body : List UInt8}
    (executed : ExecutedAt d.history k m request ret body)
    (client : request.cltNonce = job.request.cltNonce) : request.xid ≠ job.request.xid := by
  intro xid
  have ⟨sound, _answers⟩ := Network.Reached.sound tracked.reached
  obtain ⟨stat, silent⟩ :=
    ((sound.served.sound m).jobs job (List.mem_of_getElem? here)).running phase
  obtain ⟨-, other, member, statOther, rfl, answered⟩ := tracked.ran k m request ret body executed
  obtain ⟨i, there⟩ := List.mem_iff_getElem?.mp member
  have slot := (sound.served.once m).unique job.request.cltNonce job.request.xid i index other job
    there here ⟨statOther, client, xid⟩ ⟨stat, rfl, rfl⟩
  subst slot
  cases here.symm.trans there
  rw [silent] at answered
  cases answered

theorem Deployment.Tracked.handle (tracked : d.Tracked service) {m : UInt32} {index : Nat}
    {found : Found Uninit} {job : Job}
    (here : (d.network.servers m).jobs[index]? = some job) {ret : Int} {body : List UInt8}
    (taken : d.network.step (.job m index (.handle ret body)) = some network) :
    Deployment.Tracked service
      { d.setRunning m index none with
        network := network
        history := d.history ++ [.executed m job.request found ret body] } := by
  have steps := Network.step_cases taken
  have ⟨sound, _answers⟩ := Network.Reached.sound tracked.reached
  have reached := tracked.reached.next taken
  have member := List.mem_of_getElem? here
  have last : ExecutedAt (d.history ++ [.executed m job.request found ret body])
      d.history.length m job.request ret body := ⟨found, List.getElem?_concat_length⟩
  obtain ⟨running, requests, later, inside, ran, same, replied⟩ := steps.handled sound here
  have first {k request ret' body'} (executed : ExecutedAt d.history k m request ret' body') :=
    tracked.unexecuted here running executed
  refine ⟨reached, ?_, ?_, ?_, ?_, ?_, ?_, ?_⟩
  · intro request asked
    dsimp only at asked
    rw [requests] at asked
    exact ((tracked.called request asked).append _).mono (by simp)
  · intro c request there
    dsimp only
    rw [requests]
    exact tracked.issued c request (called_concat there)
  · intro b c one other left right
    exact tracked.calledOnce b c one other (called_concat left) (called_concat right)
  · intro m' other there ran reply answered
    rcases steps.replied sound there ran answered with
      ⟨before, held, stat, request, reply⟩ | ⟨i, before, ret', body', same', held, request, rfl⟩
    · obtain ⟨k, executed⟩ := tracked.executed m' before held stat _ reply
      rw [← request]
      exact ⟨k, executed.append _⟩
    · cases same'
      cases here.symm.trans held
      rw [request]
      exact ⟨_, last⟩
  · intro k m' request ret' body' executed
    rcases executedAt_concat executed with before | ⟨rfl, rfl, rfl, rfl, rfl⟩
    · obtain ⟨called, other, held, stat, request, answered⟩ := tracked.ran k m' _ _ _ before
      obtain ⟨kept, there, ran, request', reply⟩ := steps.keeps sound held stat answered
      exact ⟨called.append _, kept, there, ran, request'.trans request, reply⟩
    · have asked := (sound.served.jobs _ job member).2
      exact ⟨(tracked.called _ asked).append _, later, inside, ran, same, replied⟩
  · intro i j m' one other ret' body' ret'' body'' left right client xid
    rcases executedAt_concat left with before | ⟨rfl, rfl, rfl, -, -⟩
    · rcases executedAt_concat right with earlier | ⟨rfl, rfl, rfl, -, -⟩
      · exact tracked.once i j m' one other _ _ _ _ before earlier client xid
      · exact absurd xid (first before client)
    · rcases executedAt_concat right with earlier | ⟨rfl, -, -, -, -⟩
      · exact absurd xid.symm (first earlier client.symm)
      · rfl
  · intro k r there valid
    rcases event_append_cases there with before | ⟨-, new⟩
    · obtain ⟨request, client, xid, called, executed⟩ := tracked.returned k r before valid
      refine ⟨request, client, xid, called.append _, fun other => ?_⟩
      obtain ⟨j, earlier, executed⟩ := executed other
      exact ⟨j, earlier, executed.append _⟩
    · cases List.mem_singleton.mp new

end Network

/-! ### Runs -/

theorem Deployment.Tracked.step (tracked : d.Tracked service)
    {action : DeploymentAction Uninit} (taken : d.step service action = some next) :
    next.Tracked service := by
  cases Deployment.step_cases taken with
  | network action plain network stepped => exact tracked.quiet plain stepped
  | enter m index found job here h handler phase free => exact { tracked with }
  | access m index found op rest here => exact { tracked with }
  | handle m index found ret body returns job here network stepped =>
      exact tracked.handle here stepped

theorem Deployment.Tracked.of_reachable {obj : Obj}
    (reached : Reachable (Deployment.step service) (.start service obj) d) :
    d.Tracked service :=
  Reachable.invariant (fun _d _action _next tracked taken => Deployment.Tracked.step tracked taken)
    (Deployment.Tracked.start obj) reached

/-- In no instance but its own, and there once, is a call executed that is not that
of `bind`. -/
theorem Deployment.Tracked.executed_once (tracked : d.Tracked service)
    {i j : Nat} {m m' : UInt32} {first second : Request} {ret ret' : Int} {body body' : List UInt8}
    (left : ExecutedAt d.history i m first ret body)
    (right : ExecutedAt d.history j m' second ret' body')
    (client : first.cltNonce = second.cltNonce) (xid : first.xid = second.xid)
    (other : first.proc ≠ RpcConst.bind) : m = first.srvNonce ∧ i = j := by
  have ⟨sound, answers⟩ := Network.Reached.sound tracked.reached
  obtain ⟨-, job, member, ran, rfl, -⟩ := tracked.ran i m first ret body left
  obtain ⟨-, job', member', ran', rfl, -⟩ := tracked.ran j m' second ret' body' right
  have asked := (sound.served.jobs m job member).2
  have bound : job.request.srvNonce ≠ 0 := answers.stored _ (answers.named _ asked other)
  have same : job'.request = job.request :=
    sound.issued.distinct _ (sound.served.jobs m' job' member').2 _ asked client.symm xid.symm
  have here := sound.instance member ran bound
  have there := sound.instance member' ran' (same ▸ bound)
  rw [same, ← here] at there
  subst there
  exact ⟨here, tracked.once i j m' _ _ ret body ret' body' left right client xid⟩

/-- A call returns without failure what its one execution gave, between its start and its
end; and of two calls of which one returned before the other started, it is executed
first. In a run in which the handlers of an instance do not overlap, the executions give
in their order what they gave in the run, and while no handler is in progress the object
is what they leave. -/
theorem linearizable {obj : Obj} {actions : List (DeploymentAction Uninit)}
    (ran : run (Deployment.step service) (.start service obj) actions = some d) :
    (Guarded (Deployment.step service) Deployment.Apart (.start service obj) actions →
      ∀ m, ∃ before, replay service m obj d.history = some before ∧
        ((∀ index, d.running m index = none) → d.objects m = before)) ∧
    (∀ (k : Nat) (r : Returned), d.history[k]? = some (.returned r) → 0 ≤ r.ret →
      ∃ (c : Nat) (request : Request), c < k ∧ d.history[c]? = some (.called request) ∧
        request.cltNonce = r.cltNonce ∧ request.xid = r.xid ∧
        (request.proc ≠ RpcConst.bind → ∃ j, c < j ∧ j < k ∧
          ExecutedAt d.history j request.srvNonce request r.ret r.body ∧
          (∀ (i : Nat) (m : UInt32) (ret : Int) (body : List UInt8),
            ExecutedAt d.history i m request ret body → i = j) ∧
          ∀ (c' i : Nat) (m : UInt32) (later : Request) (ret : Int) (body : List UInt8), k < c' →
            d.history[c']? = some (.called later) → ExecutedAt d.history i m later ret body →
            j < i)) := by
  have tracked : d.Tracked service := Deployment.Tracked.of_reachable ⟨actions, ran⟩
  refine ⟨fun apart => Deployment.Serial.replays apart ran, ?_⟩
  intro k r here valid
  obtain ⟨request, client, xid, ⟨c, earlier, called⟩, executed⟩ := tracked.returned k r here valid
  refine ⟨c, request, earlier, called, client, xid, fun other => ?_⟩
  obtain ⟨j, before, ran⟩ := executed other
  obtain ⟨⟨c', since, called'⟩, -⟩ := tracked.ran j _ _ _ _ ran
  have same := tracked.calledOnce c c' request request called called' rfl rfl
  refine ⟨j, same ▸ since, before, ran, ?_, ?_⟩
  · intro i m ret body again
    exact (tracked.executed_once again ran rfl rfl other).2
  · intro c' i m later ret body after calledLater ranLater
    obtain ⟨⟨c'', sinceLater, calledAgain⟩, -⟩ := tracked.ran i _ _ _ _ ranLater
    have same := tracked.calledOnce c' c'' later later calledLater calledAgain rfl rfl
    omega

def servedActions (index accesses : Nat) (found : Found Uninit) : List (DeploymentAction Uninit) :=
  [.network (.request 9 0 sampleConn), .network (.job 9 index .prepare),
    .network (.job 9 index .check), .enter 9 index found] ++
    List.replicate accesses (.access 9 index) ++
    [.handle 9 index, .network (.job 9 index .record), .network (.job 9 index (.choose false)),
      .network (.job 9 index .send), .network (.reply 0), .network (.leave 5 (index + 1))]

def sampleFound : Found FileSystem.Uninit :=
  { uninit := .zero, r := Ty.fresh, heap := fun _ => 0 }

/-- Client 5 binds to instance 9, puts a byte into inode 1 and gets it back. -/
def storeActions : List (DeploymentAction FileSystem.Uninit) :=
  [.network (.call 5 RpcConst.bind [0, 0, 0, 0])] ++ servedActions 0 0 sampleFound ++
    [.network (.bind 0),
      .network (.call 5 ExtentProtocol.put [0, 0, 0, 0, 0, 0, 0, 1, 0, 0, 0, 1, 104])] ++
    servedActions 1 6 sampleFound ++
    [.network (.call 5 ExtentProtocol.get [0, 0, 0, 0, 0, 0, 0, 1])] ++
    servedActions 2 2 sampleFound

def storedReturned : Returned :=
  { cltNonce := 5, xid := 3, ret := 0, body := [0, 0, 0, 1, 104] }

def Event.outcome : Event Uninit → Option Returned
  | .returned r => some r
  | .called _ | .executed _ _ _ _ _ => none

theorem storeActions_ran : ∃ d,
    run (Deployment.step extentHandlers) (.start extentHandlers (FileSystem.construct .zero))
      storeActions = some d ∧ d.history[8]? = some (.returned storedReturned) := by
  have ends : (run (Deployment.step extentHandlers)
      (.start extentHandlers (FileSystem.construct .zero)) storeActions).bind
        (fun d => d.history[8]?.bind Event.outcome) = some storedReturned := by decide +kernel
  obtain ⟨d, ran, outcome⟩ := Option.bind_eq_some_iff.mp ends
  obtain ⟨event, here, same⟩ := Option.bind_eq_some_iff.mp outcome
  cases event with
  | returned r => exact ⟨d, ran, Option.some.inj same ▸ here⟩
  | called _ | executed _ _ _ _ _ => cases same

theorem storeActions_apart :
    Guarded (Deployment.step extentHandlers) Deployment.Apart
      (.start extentHandlers (FileSystem.construct .zero)) storeActions := by decide +kernel

theorem linearizable_stored : ∃ d,
    run (Deployment.step extentHandlers) (.start extentHandlers (FileSystem.construct .zero))
      storeActions = some d ∧ d.history[8]? = some (.returned storedReturned) ∧
      (∀ m, ∃ before, replay extentHandlers m (FileSystem.construct .zero) d.history =
          some before ∧ ((∀ index, d.running m index = none) → d.objects m = before)) ∧
      ∃ (c : Nat) (request : Request), c < 8 ∧ d.history[c]? = some (.called request) ∧
        request.cltNonce = 5 ∧ request.xid = 3 := by
  obtain ⟨d, ran, here⟩ := storeActions_ran
  obtain ⟨objects, returned⟩ := linearizable ran
  obtain ⟨c, request, earlier, called, client, xid, -⟩ :=
    returned 8 storedReturned here (by decide)
  exact ⟨d, ran, here, objects storeActions_apart, c, request, earlier, called, client, xid⟩

end CseLab.Rpc
