import CseLab.Rpc.Agreement

/-! Whether a new request is refused as forgotten. A request that is forgotten
is retired at its client as long as no new request arrives below its window, and
then no call ends with `atmostonce_failure`. -/

namespace CseLab.Rpc

open BigEndian Slots Transition

/-- A request says that its client has all replies up to and including the xid. -/
def Acknowledged (request : Request) (x : Nat) : Prop := x ≤ request.xidRep

instance (request : Request) (x : Nat) : Decidable (Acknowledged request x) := by
  unfold Acknowledged
  infer_instance

/-- A request that an instance receives for the first time, and that lies above
every `xid_rep` received from its client, does not lie below the front of the
client's window. -/
def Network.InWindow (s : Network) : NetworkAction → Prop
  | .job m index action => (s.servers m).InWindow Acknowledged (.job index action)
  | _ => True

instance (s : Network) (action : NetworkAction) : Decidable (s.InWindow action) := by
  cases action <;> unfold Network.InWindow <;> infer_instance

/-! ### What is forgotten -/

theorem Rpcs.Acts.forgotten {retires : Request → Nat → Prop} {s next : Rpcs} {job after : Job}
    {action : JobAction} {index : Nat} (acts : s.Acts job action next after)
    (here : s.jobs[index]? = some job)
    (remembers : Rpcs.Remembers retires { next with jobs := s.jobs.set index after })
    (stat : after.stat = some .forgotten) :
    job.stat = some .forgotten ∨
      Rpcs.Retired retires { next with jobs := s.jobs.set index after }
        job.request.cltNonce job.request.xid := by
  cases acts with
  | check admitted answer b rlist checked =>
      cases checked with
      | forgotten front unknown first below =>
          have received : ∃ other ∈ s.jobs.set index (job.checked .forgotten none),
              other.Received job.request.cltNonce job.request.xid :=
            ⟨_, mem_set_self here, Option.some_ne_none _, rfl, rfl⟩
          rcases remembers _ _ received with ⟨r, entry, same⟩ | gone
          · change r ∈ Function.update s.replyWindow _ _ _ at entry
            rw [Function.update_self] at entry
            exact absurd same (unknown r entry)
          · exact Or.inr gone
      | done _ _ _ _ => cases stat
      | inProgress _ _ _ _ => cases stat
      | new _ _ => cases stat
  | direct _ _ _ => cases stat
  | oldServer _ _ _ | prepare _ _ _ | handle _ _ _ _ _ | record _ | keep _ _ _ | reroute _ _ _
  | send _ => exact Or.inl stat

variable {s next : Network}

structure Network.Fresh (s : Network) : Prop where
  remembers : ∀ m, (s.servers m).Remembers Acknowledged
  forgotten : ∀ m, ∀ job ∈ (s.servers m).jobs, job.stat = some .forgotten →
    job.request.xid ∈ (s.clients job.request.cltNonce).retired
  callers : ∀ n, ∀ ca ∈ (s.clients n).calls, ca.done = true →
    ca.intret ≠ RpcConst.atmostonceFailure
  returned : ∀ r ∈ s.returned, r.ret ≠ RpcConst.atmostonceFailure

theorem Network.Fresh.start (procs : Nat → Bool) : (Network.start procs).Fresh where
  remembers := fun m => Rpcs.Remembers.start m procs
  forgotten := fun _m _job member => absurd member List.not_mem_nil
  callers := fun _n _ca member => absurd member List.not_mem_nil
  returned := fun _r member => absurd member List.not_mem_nil

theorem Network.Sound.retired (sound : s.Sound) {m n : UInt32} {x : Nat} (positive : 1 ≤ x)
    (gone : (s.servers m).Retired Acknowledged n x) : x ∈ (s.clients n).retired := by
  obtain ⟨job, member, _seen, rfl, below⟩ := gone
  have packed := (sound.served.jobs m job member).2
  exact (sound.issued.requests _ packed).retired x positive below

theorem Network.Fresh.remembers_step (fresh : s.Fresh) (sound : s.Sound) {m : UInt32}
    {server : Rpcs} {action : RpcsAction} (inWindow : (s.servers m).InWindow Acknowledged action)
    (taken : (s.servers m).step action = some server) (other : UInt32) :
    (Function.update s.servers m server other).Remembers Acknowledged := by
  refine (Function.forall_update_iff s.servers
    (fun _ server => server.Remembers Acknowledged)).mpr ⟨?_, fun m' _ => fresh.remembers m'⟩ other
  exact (fresh.remembers m).step (sound.served.once m) (sound.served.sound m)
    (fun _request _x below => Nat.le_of_lt below) inWindow taken

theorem Network.Fresh.gotPdu (fresh : s.Fresh) (sound : s.Sound) {c : Conn} {reply : Reply}
    (sent : (c, reply) ∈ s.replies) :
    ∀ ca ∈ ((s.clients c.owner).gotPdu reply).calls, ca.done = true →
      ca.intret ≠ RpcConst.atmostonceFailure := by
  intro ca member
  obtain ⟨earlier, inside, rfl⟩ := List.mem_map.mp member
  unfold Caller.takeIn
  split
  · rename_i matched
    intro _done failed
    obtain ⟨m, job, served, _packed, client, xid, _first, forgotten⟩ :=
      sound.given (sound.carried _ sent)
    have retired := fresh.forgotten m job served (forgotten failed)
    rw [client, xid, ← matched.1] at retired
    exact (sound.issued.sound c.owner).waiting earlier inside matched.2 retired
  · exact fresh.callers c.owner earlier inside

theorem Network.Fresh.step (fresh : s.Fresh) (sound : s.Sound) {action : NetworkAction}
    (inWindow : s.InWindow action) (taken : s.step action = some next) : next.Fresh := by
  have after := sound.step taken
  have steps := Network.step_cases taken
  -- Clients only retire more, and other jobs are as they were.
  have client : ∀ {n : UInt32} {c : Rpcc}, (s.clients n).Later c → ∀ m, ∀ job ∈ (s.servers m).jobs,
      job.stat = some .forgotten →
      job.request.xid ∈ (Function.update s.clients n c job.request.cltNonce).retired := by
    intro n c later m job member stat
    have before := fresh.forgotten m job member stat
    by_cases same : job.request.cltNonce = n
    · rw [same, Function.update_self]
      rw [same] at before
      exact later.retired _ before
    · rw [Function.update_of_ne same]
      exact before
  have callers : ∀ {n : UInt32} {c : Rpcc},
      (∀ ca ∈ c.calls, ca.done = true → ca.intret ≠ RpcConst.atmostonceFailure) →
      ∀ other, ∀ ca ∈ (Function.update s.clients n c other).calls, ca.done = true →
        ca.intret ≠ RpcConst.atmostonceFailure := by
    intro n c own
    exact (Function.forall_update_iff s.clients (fun _ c => ∀ ca ∈ c.calls, ca.done = true →
      ca.intret ≠ RpcConst.atmostonceFailure)).mpr ⟨own, fun other _ => fresh.callers other⟩
  cases steps with
  | refused n proc args => exact fresh
  | call n proc args named c request called =>
      refine ⟨fresh.remembers, client (Rpcc.later_call1 called), callers ?_, fresh.returned⟩
      obtain ⟨_bind, _open, rfl, rfl⟩ := Rpcc.call1_ok called
      intro ca member
      rcases Rpcc.mem_addCall member with rfl | inside
      · exact fun done => nomatch done
      · exact fresh.callers n ca inside
  | leave n xid c result left binds bound =>
      obtain ⟨ca, member, rfl, sameResult, sameClient⟩ := Rpcc.leave_some left
      refine ⟨fresh.remembers, client (Rpcc.later_leave left), callers ?_, ?_⟩
      · rw [sameClient]
        exact fun other inside => fresh.callers n other (Rpcc.mem_eraseCall inside).1
      · intro r inside
        rcases List.mem_cons.mp inside with rfl | before
        · change result.1 ≠ _
          rw [sameResult]
          unfold Caller.result
          split
          · rename_i done
            exact fresh.callers n ca member done
          · exact (by decide : RpcConst.timeoutFailure ≠ RpcConst.atmostonceFailure)
        · exact fresh.returned r before
  | cancel n =>
      refine ⟨fresh.remembers, client (Rpcc.later_cancel _), callers ?_, fresh.returned⟩
      intro ca member
      obtain ⟨_earlier, _inside, rfl⟩ := List.mem_map.mp member
      exact fun _done => (by decide : RpcConst.cancelFailure ≠ RpcConst.atmostonceFailure)
  | bind index n body member =>
      exact ⟨fresh.remembers, client (Rpcc.later_bound _ _), callers (fresh.callers n),
        fresh.returned⟩
  | reply index c reply sent =>
      exact ⟨fresh.remembers, client (Rpcc.later_gotPdu _ _), callers (fresh.gotPdu sound sent),
        fresh.returned⟩
  | request m index c named request member owned server arrived =>
      have unchecked : (s.servers m).InWindow Acknowledged (.gotPdu c request) := trivial
      have remembers := fresh.remembers_step sound unchecked arrived
      refine ⟨remembers, ?_, fresh.callers, fresh.returned⟩
      refine (Function.forall_update_iff s.servers (fun _ server => ∀ job ∈ server.jobs,
        job.stat = some .forgotten →
          job.request.xid ∈ (s.clients job.request.cltNonce).retired)).mpr
        ⟨?_, fun other _ => fresh.forgotten other⟩
      cases arrived
      intro job inside stat
      rcases List.mem_append.mp inside with before | last
      · exact fresh.forgotten m job before stat
      · rw [List.mem_singleton.mp last] at stat
        cases stat
  | job m index action server acted =>
      have remembers := fresh.remembers_step sound inWindow acted
      refine ⟨remembers, ?_, fresh.callers, fresh.returned⟩
      refine (Function.forall_update_iff s.servers (fun _ server => ∀ job ∈ server.jobs,
        job.stat = some .forgotten →
          job.request.xid ∈ (s.clients job.request.cltNonce).retired)).mpr
        ⟨?_, fun other _ => fresh.forgotten other⟩
      have own := remembers m
      rw [Function.update_self] at own
      obtain ⟨job, shared, later, here, acts, rfl⟩ := Rpcs.step_job acted
      have member := List.mem_of_getElem? here
      have packed := (sound.served.jobs m job member).2
      intro other inside stat
      rcases List.mem_or_eq_of_mem_set inside with before | rfl
      · exact fresh.forgotten m other before stat
      · rw [(acts.later ((sound.served.sound m).jobs job member)).request]
        rcases acts.forgotten here own stat with before | gone
        · exact fresh.forgotten m job member before
        · apply after.retired (m := m) (sound.issued.requests _ packed).positive
          change (Function.update s.servers m _ m).Retired _ _ _
          rw [Function.update_self]
          exact gone

/-! ### Runs -/

/-- For a request that is received for the first time, above every `xid_rep`
received from its client, the check answers NEW exactly if it lies in the window. -/
theorem Rpcs.Sound.fresh_new {server next : Rpcs} (sound : server.Sound) {index : Nat} {job : Job}
    (here : server.jobs[index]? = some job)
    (unreceived : ∀ other ∈ server.jobs, ¬ other.Received job.request.cltNonce job.request.xid)
    (above : ∀ other ∈ server.jobs, other.stat ≠ none →
      other.request.cltNonce = job.request.cltNonce → other.request.xidRep < job.request.xid)
    (taken : server.step (.job index .check) = some next) :
    server.InWindow Acknowledged (.job index .check) ↔
      next.jobs[index]? = some (job.checked .new none) := by
  have kept : ¬ server.Retired Acknowledged job.request.cltNonce job.request.xid := by
    rintro ⟨other, member, seen, client, below⟩
    exact absurd (above other member seen client) (not_lt.mpr below)
  constructor
  · intro inWindow
    have inside := inWindow job here unreceived kept
    obtain ⟨_job, shared, after, there, acts, rfl⟩ := Rpcs.step_job taken
    cases here.symm.trans there
    have answer : (server.jobs.set index after)[index]? = some after := slot_set_self here
    have known : ∀ r ∈ server.replyWindow job.request.cltNonce, r.xid ≠ job.request.xid := by
      intro r entry same
      obtain ⟨_named, other, member, backs⟩ := sound.entries _ r entry
      obtain ⟨ran, client, xid⟩ := backs.handled
      refine unreceived other member ⟨?_, client, xid.trans same⟩
      rw [ran]
      exact Option.some_ne_none _
    cases acts with
    | check admitted stat b rlist checked =>
        cases checked with
        | new _ _ => exact answer
        | done r entry same _ => exact absurd same (known r entry)
        | inProgress r entry same _ => exact absurd same (known r entry)
        | forgotten front _ first below => exact absurd (inside front first) (not_le.mpr below)
  · intro answered
    by_contra outside
    have refused := (sound.forgets here outside taken).2.2
    cases answered.symm.trans refused

/-- In every run in which each request that is received for the first time above every
`xid_rep` lies in its window, each is answered NEW, and no call returns
`atmostonce_failure`. -/
theorem fresh_requests_new {procs : Nat → Bool} {actions : List NetworkAction}
    (inWindow : Guarded Network.step Network.InWindow (.start procs) actions)
    (ran : run Network.step (.start procs) actions = some s) :
    (∀ m index job next, (s.servers m).jobs[index]? = some job →
      (∀ other ∈ (s.servers m).jobs, ¬ other.Received job.request.cltNonce job.request.xid) →
      (∀ other ∈ (s.servers m).jobs, other.stat ≠ none →
        other.request.cltNonce = job.request.cltNonce →
          other.request.xidRep < job.request.xid) →
      (s.servers m).step (.job index .check) = some next →
      (s.InWindow (.job m index .check) ↔
        next.jobs[index]? = some (job.checked .new none))) ∧
      ∀ r ∈ s.returned, r.ret ≠ RpcConst.atmostonceFailure := by
  have preserved : ∀ (s : Network) action next, s.Sound ∧ s.Fresh → s.InWindow action →
      s.step action = some next → next.Sound ∧ next.Fresh :=
    fun s action next holds inWindow taken =>
      ⟨holds.1.step taken, holds.2.step holds.1 inWindow taken⟩
  have ⟨sound, fresh⟩ := Guarded.invariant preserved inWindow
    ⟨Network.Sound.start procs, Network.Fresh.start procs⟩ ran
  refine ⟨?_, fresh.returned⟩
  intro m index job next here unreceived above taken
  exact (sound.served.sound m).fresh_new here unreceived above taken

theorem fresh_requests_new_call : ∃ s,
    run Network.step (.start (fun proc => proc = 2)) callActions = some s ∧
      s.returned ≠ [] ∧ ∀ r ∈ s.returned, r.ret ≠ RpcConst.atmostonceFailure :=
  ⟨_, rfl, by decide, (@fresh_requests_new _ (fun proc => proc = 2) callActions (by decide) rfl).2⟩

def overtakenCall : List NetworkAction :=
  bindActions ++ [.call 5 2 [], .leave 5 2, .call 5 2 [], .call 5 2 [],
    .request 9 0 sampleConn, .job 9 1 .prepare, .job 9 1 .check,
    .request 9 1 sampleConn, .job 9 2 .prepare]

def refusedCall : List NetworkAction :=
  [.job 9 2 .check, .job 9 2 .send, .reply 0, .leave 5 3]

theorem fresh_request_forgotten : ∃ s job server final,
    run Network.step (.start (fun proc => proc = 2)) overtakenCall = some s ∧
      (s.servers 9).jobs[2]? = some job ∧
      (∀ other ∈ (s.servers 9).jobs,
        ¬ other.Received job.request.cltNonce job.request.xid) ∧
      (∀ other ∈ (s.servers 9).jobs, other.stat ≠ none →
        other.request.cltNonce = job.request.cltNonce →
          other.request.xidRep < job.request.xid) ∧
      (s.servers 9).step (.job 2 .check) = some server ∧
      server.jobs[2]? = some (job.checked .forgotten none) ∧
      run Network.step s refusedCall = some final ∧
      { cltNonce := 5, xid := 3, ret := RpcConst.atmostonceFailure, body := [] } ∈
        final.returned :=
  ⟨_, _, _, _, rfl, rfl, by decide, by decide, rfl, rfl, rfl, by decide⟩

end CseLab.Rpc
