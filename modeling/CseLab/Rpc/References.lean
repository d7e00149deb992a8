import CseLab.Lib.Counting
import CseLab.Rpc.Dispatch
import Mathlib.Data.FinEnum

/-! `refno_` of the server's connections. A connection is held by its owner, by
the jobs that `got_pdu` has made for it and by the entries of `conns_`. A request
too short for a header is a job of its own kind: `dispatch` gives it up at once. -/

namespace CseLab.Rpc

open Counting Transition

def incref (refno : Conn → Int) (c : Conn) : Conn → Int := Function.update refno c (refno c + 1)

def decref (refno : Conn → Int) (c : Conn) : Conn → Int := Function.update refno c (refno c - 1)

def Request.ForOldServer (request : Request) (nonce : UInt32) : Prop :=
  request.srvNonce ≠ 0 ∧ request.srvNonce ≠ nonce

instance (request : Request) (nonce : UInt32) : Decidable (request.ForOldServer nonce) :=
  inferInstanceAs (Decidable (_ ∧ _))

/-- What a step of `dispatch` does to the counts; `after` is the job it leaves. -/
def Rpcs.recount (s : Rpcs) (job after : Job) (refno : Conn → Int) : JobAction → Conn → Int
  | .prepare =>
      let h := job.request
      if h.ForOldServer s.nonce then refno
      else if h.cltNonce = 0 then refno
      else
        match s.conns h.cltNonce with
        | none => incref refno job.conn
        | some old =>
            if old.compare job.conn < 0 then incref (decref refno old) job.conn else refno
  | .check => if after.stat = some .inProgress then decref refno job.conn else refno
  | .handle _ _ => refno
  | .record => refno
  | .choose isdead =>
      if isdead = true ∧ some job.conn ≠ s.conns job.request.cltNonce then
        incref (decref refno job.conn) after.conn
      else refno
  | .send =>
      -- the reply to a request for an old instance is followed by a plain return
      if job.request.ForOldServer s.nonce then refno else decref refno job.conn

/-- A server with the counts of its connections; `shorts` are the jobs with a short
header. -/
structure RefServer where
  server : Rpcs
  shorts : List Conn
  refno : Conn → Int

/-- Every connection is made with the reference of its owner. -/
def RefServer.start (nonce : UInt32) (procs : Nat → Bool) : RefServer :=
  { server := .start nonce procs, shorts := [], refno := fun _ => 1 }

/-- `refused` is `got_pdu` with a full queue. -/
inductive RefAction where
  | gotPdu (c : Conn) (request : Request)
  | gotShort (c : Conn)
  | refused (c : Conn)
  | job (index : Nat) (action : JobAction)
  | dropShort (index : Nat)

def RefServer.step (s : RefServer) : RefAction → Option RefServer
  | .gotPdu c request =>
      (s.server.step (.gotPdu c request)).map fun server =>
        { s with server := server, refno := incref s.refno c }
  | .gotShort c => some { s with shorts := s.shorts ++ [c], refno := incref s.refno c }
  | .refused c => some { s with refno := decref (incref s.refno c) c }
  | .job index action =>
      (s.server.jobs[index]?).bind fun job =>
        (s.server.act job action).map fun (next, after) =>
          { s with
            server := { next with jobs := s.server.jobs.set index after }
            refno := s.server.recount job after s.refno action }
  | .dropShort index =>
      (s.shorts[index]?).map fun c =>
        { s with shorts := s.shorts.eraseIdx index, refno := decref s.refno c }

/-! ### Holders -/

def Job.holds (job : Job) (c : Conn) : Bool := decide (job.conn = c ∧ job.phase ≠ .finished)

/-- The job has ended without giving up `c`. -/
def Job.leaks (job : Job) (nonce : UInt32) (c : Conn) : Bool :=
  decide (job.conn = c ∧ job.phase = .finished ∧ job.request.ForOldServer nonce)

def Job.counts (job : Job) (nonce : UInt32) (c : Conn) : Bool :=
  job.holds c || job.leaks nonce c

def RefServer.holding (s : RefServer) (c : Conn) : Nat :=
  s.server.jobs.countP (fun job => job.holds c) + s.shorts.count c

noncomputable def RefServer.entries (s : RefServer) (c : Conn) : Nat := keys s.server.conns c

theorem Job.counts_unfinished {job : Job} {nonce : UInt32} {c : Conn} {phase : Phase}
    (here : job.phase = phase) (unfinished : phase ≠ .finished) :
    job.counts nonce c = decide (job.conn = c) := by
  unfold Job.counts Job.holds Job.leaks
  simp [here, unfinished]

theorem Job.counts_finished {job : Job} {nonce : UInt32} {c : Conn}
    (finished : job.phase = .finished) :
    job.counts nonce c = decide (job.conn = c ∧ job.request.ForOldServer nonce) := by
  unfold Job.counts Job.holds Job.leaks
  simp [finished]

theorem countP_counts (jobs : List Job) (nonce : UInt32) (c : Conn) :
    jobs.countP (fun job => job.counts nonce c) =
      jobs.countP (fun job => job.holds c) + jobs.countP (fun job => job.leaks nonce c) := by
  induction jobs with
  | nil => rfl
  | cons job rest ih =>
      have apart : (if job.counts nonce c then 1 else 0) =
          (if job.holds c then 1 else 0) + (if job.leaks nonce c then 1 else 0) := by
        by_cases finished : job.phase = .finished
        · rw [Job.counts_finished finished]
          unfold Job.holds Job.leaks
          simp [finished]
        · rw [Job.counts_unfinished rfl finished]
          unfold Job.holds Job.leaks
          simp [finished]
      rw [List.countP_cons, List.countP_cons, List.countP_cons, ih, apart]
      omega

theorem incref_apply (refno : Conn → Int) (c other : Conn) :
    incref refno c other = refno other + if c = other then 1 else 0 := by
  unfold incref
  by_cases same : c = other
  · rw [same, Function.update_self, if_pos rfl]
  · rw [Function.update_of_ne (Ne.symm same), if_neg same, Int.add_zero]

theorem decref_apply (refno : Conn → Int) (c other : Conn) :
    decref refno c other = refno other - if c = other then 1 else 0 := by
  unfold decref
  by_cases same : c = other
  · rw [same, Function.update_self, if_pos rfl]
  · rw [Function.update_of_ne (Ne.symm same), if_neg same, Int.sub_zero]

/-! ### One step -/

theorem Request.not_forOldServer {request : Request} {nonce : UInt32}
    (accepted : request.srvNonce = 0 ∨ request.srvNonce = nonce) :
    ¬request.ForOldServer nonce := by
  rintro ⟨nonzero, other⟩
  exact accepted.elim nonzero other

theorem Rpcs.Acts.recount {s next : Rpcs} {job after : Job} {action : JobAction}
    (acts : s.Acts job action next after) (sound : job.Sound s.nonce) (refno : Conn → Int)
    (c : Conn) :
    s.recount job after refno action c + (if job.counts s.nonce c then 1 else 0) + keys s.conns c =
      refno c + (if after.counts s.nonce c then 1 else 0) + keys next.conns c := by
  cases acts with
  | oldServer queued old other =>
      rw [Job.counts_unfinished queued Phase.noConfusion, Job.counts_unfinished rfl Phase.noConfusion]
      unfold Rpcs.recount
      rw [if_pos ⟨old, other⟩]
  | direct queued accepted anonymous =>
      rw [Job.counts_unfinished queued Phase.noConfusion, Job.counts_unfinished rfl Phase.noConfusion]
      unfold Rpcs.recount
      dsimp only
      rw [if_neg (Request.not_forOldServer accepted), if_pos anonymous]
  | prepare queued accepted named =>
      have table := keys_update_add s.conns job.request.cltNonce
        (some (latestConn (s.conns job.request.cltNonce) job.conn)) c
      rw [Job.counts_unfinished queued Phase.noConfusion, Job.counts_unfinished rfl Phase.noConfusion]
      unfold Rpcs.recount
      dsimp only
      rw [if_neg (Request.not_forOldServer accepted), if_neg named]
      simp only [decide_eq_true_eq]
      cases known : s.conns job.request.cltNonce with
      | none =>
          rw [known] at table
          simp only [latestConn, Option.some.injEq, reduceCtorEq, if_false] at table ⊢
          rw [incref_apply]
          split_ifs at table ⊢ <;> omega
      | some old =>
          rw [known] at table
          simp only [latestConn, Option.some.injEq] at table ⊢
          by_cases newer : old.compare job.conn < 0
          · simp only [if_pos newer] at table ⊢
            rw [incref_apply, decref_apply]
            split_ifs at table ⊢ <;> omega
          · simp only [if_neg newer] at table ⊢
            split_ifs at table ⊢ <;> omega
  | check admitted stat b rlist checked =>
      have current := Request.not_forOldServer (sound.accepted (Or.inl admitted))
      rw [Job.counts_unfinished admitted Phase.noConfusion]
      cases stat with
      | inProgress =>
          have ended : (job.checked .inProgress b).counts s.nonce c =
              decide (job.conn = c ∧ job.request.ForOldServer s.nonce) := Job.counts_finished rfl
          change decref refno job.conn c + _ + _ = _
          rw [ended, decref_apply]
          simp only [current, and_false, decide_false, Bool.false_eq_true, if_false,
            decide_eq_true_eq]
          omega
      | new | done | forgotten =>
          rw [Job.counts_unfinished rfl Phase.noConfusion]
          rfl
  | handle running ret body valid bind =>
      have unfinished : (if job.request.cltNonce = 0 then Phase.recorded else .returned) ≠
          .finished := by
        split <;> exact Phase.noConfusion
      rw [Job.counts_unfinished running Phase.noConfusion, Job.counts_unfinished rfl unfinished]
      rfl
  | record returned =>
      rw [Job.counts_unfinished returned Phase.noConfusion, Job.counts_unfinished rfl Phase.noConfusion]
      rfl
  | keep recorded isdead good =>
      have stays : ¬(isdead = true ∧ some job.conn ≠ s.conns job.request.cltNonce) :=
        fun stale => stale.2 (good stale.1).symm
      rw [Job.counts_unfinished recorded Phase.noConfusion, Job.counts_unfinished rfl Phase.noConfusion]
      simp only [Rpcs.recount, if_neg stays]
  | reroute recorded d latest =>
      rw [Job.counts_unfinished recorded Phase.noConfusion, Job.counts_unfinished rfl Phase.noConfusion]
      unfold Rpcs.recount
      simp only [latest, Option.some.injEq, ne_eq, true_and, decide_eq_true_eq]
      by_cases same : job.conn = d
      · rw [if_neg (fun different => different same), same]
      · rw [if_pos same, incref_apply, decref_apply]
        omega
  | send sending =>
      rw [Job.counts_unfinished sending Phase.noConfusion, Job.counts_finished rfl]
      unfold Rpcs.recount
      by_cases old : job.request.ForOldServer s.nonce
      · simp only [old, if_true, and_true]
      · simp only [old, if_false, and_false, decide_false, Bool.false_eq_true, decref_apply,
          decide_eq_true_eq]
        omega

/-- Every count is the owner's reference and one for each holder, past holders
that leaked included. -/
structure RefServer.Counted (s : RefServer) : Prop where
  sound : s.server.Sound
  refno : ∀ c, s.refno c = 1 + s.server.jobs.countP (fun job => job.counts s.server.nonce c) +
    s.shorts.count c + keys s.server.conns c

theorem RefServer.Counted.start (nonce : UInt32) (procs : Nat → Bool) :
    (RefServer.start nonce procs).Counted := by
  refine ⟨.start nonce procs, fun c => ?_⟩
  change (1 : Int) = 1 + 0 + 0 + keys (fun _ : UInt32 => none) c
  rw [keys_none]
  rfl

theorem RefServer.Counted.job {s next : RefServer} (counted : s.Counted) {index : Nat}
    {action : JobAction} (taken : s.step (.job index action) = some next) : next.Counted := by
  obtain ⟨job, here, rest⟩ := Option.bind_eq_some_iff.mp taken
  obtain ⟨⟨shared, after⟩, acted, rfl⟩ := Option.map_eq_some_iff.mp rest
  have acts := Rpcs.act_cases acted
  refine ⟨counted.sound.acts here acts, fun c => ?_⟩
  have jobSound := counted.sound.jobs job (List.mem_of_getElem? here)
  have counts := acts.recount jobSound s.refno c
  have slots := @countP_set_add _ (fun job => job.counts s.server.nonce c) _ _ _ after here
  have was := counted.refno c
  change s.server.recount job after s.refno action c =
    1 + (s.server.jobs.set index after).countP (fun job => job.counts shared.nonce c) +
      s.shorts.count c + keys shared.conns c
  rw [acts.nonce]
  split_ifs at counts slots <;> omega

theorem RefServer.Counted.step {s next : RefServer} (counted : s.Counted) {action : RefAction}
    (taken : s.step action = some next) : next.Counted := by
  cases action with
  | gotPdu c request =>
      cases taken
      refine ⟨counted.sound.gotPdu c request, fun other => ?_⟩
      have was := counted.refno other
      have queued : (Job.start c request).counts s.server.nonce other = decide (c = other) :=
        Job.counts_unfinished rfl Phase.noConfusion
      change incref s.refno c other = 1 + ((s.server.jobs ++ [Job.start c request]).countP
        (fun job => job.counts s.server.nonce other) : Nat) + s.shorts.count other +
          keys s.server.conns other
      rw [incref_apply, List.countP_append, List.countP_singleton, queued]
      simp only [decide_eq_true_eq]
      split_ifs <;> omega
  | gotShort c =>
      cases taken
      refine ⟨counted.sound, fun other => ?_⟩
      have was := counted.refno other
      change incref s.refno c other =
        1 + s.server.jobs.countP (fun job => job.counts s.server.nonce other) +
          ((s.shorts ++ [c]).count other : Nat) + keys s.server.conns other
      rw [incref_apply, List.count_append, List.count_singleton]
      simp only [beq_iff_eq]
      split_ifs <;> omega
  | refused c =>
      cases taken
      refine ⟨counted.sound, fun other => ?_⟩
      have same : decref (incref s.refno c) c other = s.refno other := by
        rw [decref_apply, incref_apply]
        omega
      exact same.trans (counted.refno other)
  | job index action => exact counted.job taken
  | dropShort index =>
      obtain ⟨c, here, rfl⟩ := Option.map_eq_some_iff.mp taken
      refine ⟨counted.sound, fun other => ?_⟩
      have was := counted.refno other
      have fewer := count_eraseIdx_add here other
      change decref s.refno c other =
        1 + s.server.jobs.countP (fun job => job.counts s.server.nonce other) +
          (s.shorts.eraseIdx index).count other + keys s.server.conns other
      rw [decref_apply]
      simp only [beq_iff_eq] at fewer
      split_ifs at fewer ⊢ <;> omega

theorem counted_run {nonce : UInt32} {procs : Nat → Bool} {actions : List RefAction}
    {s : RefServer} (ran : run RefServer.step (.start nonce procs) actions = some s) : s.Counted :=
  run_invariant (fun _state _action _next holds taken => holds.step taken) (.start nonce procs) ran

theorem RefServer.Counted.held {s : RefServer} (counted : s.Counted) {c : Conn}
    (reclaimed : s.refno c ≤ 1) :
    (∀ job ∈ s.server.jobs, job.conn = c → job.phase = .finished) ∧ c ∉ s.shorts ∧
      ∀ n, s.server.conns n ≠ some c := by
  have total := counted.refno c
  rw [countP_counts] at total
  refine ⟨?_, ?_, ?_⟩
  · intro job member same
    by_contra unfinished
    have positive := List.countP_pos_iff (p := fun job : Job => job.holds c).mpr
      ⟨job, member, decide_eq_true ⟨same, unfinished⟩⟩
    omega
  · intro member
    have positive := List.count_pos_iff.mpr member
    omega
  · intro n entry
    have positive : 0 < keys s.server.conns c :=
      (Set.ncard_pos (Set.toFinite _)).mpr ⟨n, entry⟩
    omega

/-- The counts are balanced for exactly the connections on which no request for
an old instance has been answered. -/
theorem references_balanced {nonce : UInt32} {procs : Nat → Bool} {actions : List RefAction}
    {s : RefServer} (ran : run RefServer.step (.start nonce procs) actions = some s) (c : Conn) :
    s.refno c = 1 + s.holding c + s.entries c ↔
      ∀ job ∈ s.server.jobs, job.conn = c → job.phase = .finished →
        ¬job.request.ForOldServer s.server.nonce := by
  have total := (counted_run ran).refno c
  rw [countP_counts] at total
  have noLeaks : s.refno c = 1 + s.holding c + s.entries c ↔
      s.server.jobs.countP (fun job => job.leaks s.server.nonce c) = 0 := by
    unfold RefServer.holding RefServer.entries
    omega
  rw [noLeaks, List.countP_eq_zero]
  constructor
  · exact fun none job member same finished old =>
      none job member (decide_eq_true ⟨same, finished, old⟩)
  · intro none job member leaks
    obtain ⟨same, finished, old⟩ := of_decide_eq_true leaks
    exact none job member same finished old

private def soleConn : Conn := { owner := 5, id := 0, createTime := 0 }

private def requestFor (srvNonce : UInt32) : Request :=
  { xid := 1, proc := 1, cltNonce := 5, srvNonce := srvNonce, xidRep := 0, args := [] }

private def bindRun : List RefAction :=
  [.gotPdu soleConn (requestFor 0), .gotPdu soleConn (requestFor 0), .gotShort soleConn,
    .job 0 .prepare, .job 0 .check, .job 1 .prepare, .job 1 .check, .dropShort 0,
    .job 0 (.handle 0 (BigEndian.bytes32 9)), .job 0 .record, .job 0 (.choose false), .job 0 .send]

theorem references_balanced_bind :
    ∃ s, run RefServer.step (.start 9 (fun _ => false)) bindRun = some s ∧
      s.refno soleConn = 1 + s.holding soleConn + s.entries soleConn := by
  have ran : (run RefServer.step (.start 9 (fun _ => false)) bindRun).isSome := by decide
  obtain ⟨s, ran⟩ := Option.isSome_iff_exists.mp ran
  have requests : (run RefServer.step (.start 9 (fun _ => false)) bindRun).all (fun s =>
      s.server.jobs.all (fun job => job.request.srvNonce = 0)) = true := by decide
  rw [ran] at requests
  refine ⟨s, ran, (references_balanced ran soleConn).mpr ?_⟩
  intro job member _same _finished old
  exact old.1 (of_decide_eq_true (List.all_eq_true.mp requests job member))

/-- A request for an old instance is refused, and its connection stays counted. -/
theorem reference_leaked : ∃ s,
    run RefServer.step (.start 9 (fun _ => false))
      [.gotPdu soleConn (requestFor 7), .job 0 .prepare, .job 0 .send] = some s ∧
    s.refno soleConn = 2 ∧ s.holding soleConn = 0 ∧ s.entries soleConn = 0 := by
  refine ⟨_, rfl, ?_, ?_, keys_none _⟩
  · decide
  · decide

end CseLab.Rpc
