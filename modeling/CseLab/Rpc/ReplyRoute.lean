import CseLab.Rpc.References

/-! Where `dispatch` sends a reply once the handler has returned: over the
connection of the request, or over the one in `conns_` if the first is dead by
then. Only clients with a nonce have an entry there. -/

namespace CseLab.Rpc

open Transition

def Arrived (actions : List RefAction) (c : Conn) (n : UInt32) : Prop :=
  ∃ request, RefAction.gotPdu c request ∈ actions ∧ request.cltNonce = n

theorem RefServer.Counted.referenced {s : RefServer} (counted : s.Counted) {c : Conn}
    (held : (∃ job ∈ s.server.jobs, job.conn = c ∧ job.phase ≠ .finished) ∨
      ∃ n, s.server.conns n = some c) : 1 < s.refno c := by
  by_contra reclaimed
  obtain ⟨jobs, -, conns⟩ := counted.held (Int.not_lt.mp reclaimed)
  rcases held with ⟨job, member, same, unfinished⟩ | ⟨n, entry⟩
  · exact unfinished (jobs job member same)
  · exact conns n entry

structure RefServer.Routed (leads : Conn → UInt32 → Prop) (s : RefServer) : Prop where
  counted : s.Counted
  led : s.server.Led leads
  entered : s.server.Entered

theorem RefServer.Routed.start (leads : Conn → UInt32 → Prop) (nonce : UInt32)
    (procs : Nat → Bool) : (RefServer.start nonce procs).Routed leads :=
  ⟨.start nonce procs, .start nonce procs, .start nonce procs⟩

theorem RefServer.Routed.step {leads : Conn → UInt32 → Prop} {s next : RefServer}
    (routed : s.Routed leads) {action : RefAction}
    (arrives : ∀ c request, action = .gotPdu c request → leads c request.cltNonce)
    (taken : s.step action = some next) : next.Routed leads := by
  refine ⟨routed.counted.step taken, ?_, ?_⟩
  · cases action with
    | gotPdu c request =>
        cases taken
        exact routed.led.gotPdu (arrives c request rfl)
    | job index action =>
        obtain ⟨job, here, rest⟩ := Option.bind_eq_some_iff.mp taken
        obtain ⟨⟨shared, after⟩, acted, rfl⟩ := Option.map_eq_some_iff.mp rest
        exact routed.led.acts here (Rpcs.act_cases acted)
    | gotShort c | refused c =>
        cases taken
        exact routed.led
    | dropShort index =>
        obtain ⟨c, -, rfl⟩ := Option.map_eq_some_iff.mp taken
        exact routed.led
  · cases action with
    | gotPdu c request =>
        cases taken
        exact routed.entered.gotPdu c request
    | job index action =>
        obtain ⟨job, here, rest⟩ := Option.bind_eq_some_iff.mp taken
        obtain ⟨⟨shared, after⟩, acted, rfl⟩ := Option.map_eq_some_iff.mp rest
        exact routed.entered.acts here (Rpcs.act_cases acted)
    | gotShort c | refused c =>
        cases taken
        exact routed.entered
    | dropShort index =>
        obtain ⟨c, -, rfl⟩ := Option.map_eq_some_iff.mp taken
        exact routed.entered

theorem routed_run {nonce : UInt32} {procs : Nat → Bool} {actions : List RefAction}
    {s : RefServer} (ran : run RefServer.step (.start nonce procs) actions = some s) :
    s.Routed (Arrived actions) := by
  have logged : Guarded RefServer.step (fun _state action => action ∈ actions)
      (.start nonce procs) actions := Guarded.ofForall (fun _action member => member)
  refine logged.invariant ?_ (.start _ nonce procs) ran
  intro state action next routed member taken
  refine routed.step ?_ taken
  rintro c request rfl
  exact ⟨request, member, rfl⟩

/-- The lookup after the handler finds a connection: one on which the client has
sent a request, and that is counted before and after. -/
def RefServer.Answers (s : RefServer) (actions : List RefAction) (index : Nat) (job : Job)
    (isdead : Bool) : Prop :=
  ∃ next after, s.step (.job index (.choose isdead)) = some next ∧
    next.server.jobs[index]? = some after ∧ after.phase = .sending ∧
    Arrived actions after.conn job.request.cltNonce ∧
    1 < s.refno after.conn ∧ 1 < next.refno after.conn

variable {actions : List RefAction} {s : RefServer} {index : Nat} {job : Job}

theorem RefServer.Routed.answers (routed : s.Routed (Arrived actions))
    (here : s.server.jobs[index]? = some job) {isdead : Bool} {after : Job}
    (acted : s.server.act job (.choose isdead) = some (s.server, after))
    (sending : after.phase = .sending)
    (arrived : Arrived actions after.conn job.request.cltNonce)
    (referenced : 1 < s.refno after.conn) : s.Answers actions index job isdead := by
  have taken : s.step (.job index (.choose isdead)) = some
      { s with
        server := { s.server with jobs := s.server.jobs.set index after }
        refno := s.server.recount job after s.refno (.choose isdead) } := by
    change (s.server.jobs[index]?).bind _ = _
    rw [here, Option.bind_some, acted]
    rfl
  have placed := @Slots.slot_set_self _ _ _ _ after here
  refine ⟨_, after, taken, placed, sending, arrived, referenced, ?_⟩
  apply (routed.counted.step taken).referenced
  refine .inl ⟨after, List.mem_of_getElem? placed, rfl, ?_⟩
  rw [sending]
  exact Phase.noConfusion

theorem RefServer.Routed.answers_iff (routed : s.Routed (Arrived actions))
    (here : s.server.jobs[index]? = some job) (recorded : job.phase = .recorded)
    (isdead : Bool) :
    s.Answers actions index job isdead ↔ (isdead = true → job.request.cltNonce ≠ 0) := by
  have member := List.mem_of_getElem? here
  have unfinished : job.phase ≠ .finished := by
    rw [recorded]
    exact Phase.noConfusion
  have own : 1 < s.refno job.conn :=
    routed.counted.referenced (.inl ⟨job, member, rfl, unfinished⟩)
  have acts : ∀ chosen, s.server.choose job isdead = chosen →
      s.server.act job (.choose isdead) = chosen.map (fun next => (s.server, next)) := by
    rintro chosen rfl
    exact if_pos recorded
  by_cases stale : isdead = true ∧ some job.conn ≠ s.server.conns job.request.cltNonce
  · have chosen := acts _ (if_pos stale)
    cases latest : s.server.conns job.request.cltNonce with
    | none =>
        -- no entry: the client is anonymous
        rw [latest] at chosen
        have anonymous : job.request.cltNonce = 0 := by
          by_contra named
          have ran := (routed.counted.sound.jobs job member).ran (.inr recorded)
          exact routed.entered.named job member named (.inr ran) latest
        constructor
        · rintro ⟨next, after, taken, -⟩
          change (s.server.jobs[index]?).bind _ = _ at taken
          rw [here, Option.bind_some, chosen] at taken
          cases taken
        · exact fun named => absurd anonymous (named stale.1)
    | some c =>
        rw [latest] at chosen
        constructor
        · intro _ _ anonymous
          rw [anonymous, routed.entered.anonymous] at latest
          cases latest
        · intro _
          exact routed.answers here chosen rfl (routed.led.conns _ c latest)
            (routed.counted.referenced (.inr ⟨_, latest⟩))
  · have chosen := acts _ (if_neg stale)
    constructor
    · intro _ dead anonymous
      refine stale ⟨dead, ?_⟩
      rw [anonymous, routed.entered.anonymous]
      exact Option.some_ne_none _
    · intro _
      exact routed.answers here chosen rfl (routed.led.jobs job member) own

/-- Whenever a handler has returned, its reply has a connection to go to, unless
an anonymous client's connection is dead; and the connection stays until then. -/
theorem reply_routed {nonce : UInt32} {procs : Nat → Bool} {actions : List RefAction}
    {s : RefServer} (ran : run RefServer.step (.start nonce procs) actions = some s) :
    (∀ (index : Nat) (job : Job), s.server.jobs[index]? = some job → job.phase = .recorded →
      ∀ isdead, s.Answers actions index job isdead ↔
        (isdead = true → job.request.cltNonce ≠ 0)) ∧
    ∀ job ∈ s.server.jobs, job.phase = .sending →
      Arrived actions job.conn job.request.cltNonce ∧ 1 < s.refno job.conn := by
  have routed := routed_run ran
  constructor
  · intro index job here recorded isdead
    exact routed.answers_iff here recorded isdead
  · intro job member sending
    refine ⟨routed.led.jobs job member, routed.counted.referenced (.inl ⟨job, member, rfl, ?_⟩)⟩
    rw [sending]
    exact Phase.noConfusion

private def oldConn : Conn := { owner := 5, id := 0, createTime := 0 }

private def newConn : Conn := { owner := 5, id := 1, createTime := 1 }

private def callOf (cltNonce : UInt32) (xid : Nat) : Request :=
  { xid := xid, proc := 1, cltNonce := cltNonce, srvNonce := 0, xidRep := 0, args := [] }

/-- A client sends over a second connection while its first request is handled. -/
private def twoConns : List RefAction :=
  [.gotPdu oldConn (callOf 5 1), .job 0 .prepare, .job 0 .check, .gotPdu newConn (callOf 5 2),
    .job 1 .prepare, .job 0 (.handle 0 (BigEndian.bytes32 9)), .job 0 .record]

theorem reply_routed_reconnected : ∃ s job,
    run RefServer.step (.start 9 (fun _ => false)) twoConns = some s ∧
    s.server.jobs[0]? = some job ∧ s.Answers twoConns 0 job true := by
  have ran : (run RefServer.step (.start 9 (fun _ => false)) twoConns).isSome := by decide
  obtain ⟨s, ran⟩ := Option.isSome_iff_exists.mp ran
  have first : (run RefServer.step (.start 9 (fun _ => false)) twoConns).all (fun s =>
      (s.server.jobs[0]?).any fun job =>
        decide (job.phase = .recorded ∧ job.request.cltNonce ≠ 0)) = true := by decide
  rw [ran] at first
  obtain ⟨job, here, facts⟩ := (Option.any_eq_true _ _).mp first
  obtain ⟨recorded, named⟩ := of_decide_eq_true facts
  exact ⟨s, job, ran, here, ((reply_routed ran).1 0 job here recorded true).mpr fun _ => named⟩

private def anonymousCall : List RefAction :=
  [.gotPdu oldConn (callOf 0 1), .job 0 .prepare, .job 0 (.handle 0 (BigEndian.bytes32 9))]

/-- A client without a nonce has no entry to fall back on. -/
theorem reply_unrouted : ∃ s job,
    run RefServer.step (.start 9 (fun _ => false)) anonymousCall = some s ∧
    s.server.jobs[0]? = some job ∧ job.phase = .recorded ∧
    s.server.conns job.request.cltNonce = none ∧ ¬s.Answers anonymousCall 0 job true := by
  refine ⟨_, _, rfl, rfl, by decide, rfl, ?_⟩
  rintro ⟨next, after, taken, -⟩
  cases taken

end CseLab.Rpc
