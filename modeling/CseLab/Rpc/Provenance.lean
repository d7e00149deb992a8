import CseLab.Rpc.Network

/-! Where the PDUs of a network come from: every job has a request that a client
has packed, and every reply is the reply of a job. -/

namespace CseLab.Rpc

open BigEndian Slots Transition

/-! ### Later states -/

structure Rpcc.Later (c next : Rpcc) : Prop where
  cltNonce : next.cltNonce = c.cltNonce
  xid : c.xid ≤ next.xid
  retired : ∀ x ∈ c.retired, x ∈ next.retired

theorem Rpcc.later_call1 {c next : Rpcc} {proc : Nat} {args : List UInt8} {request : Request}
    (called : c.call1 proc args = .ok (next, request)) : c.Later next := by
  obtain ⟨_bind, _open, rfl, rfl⟩ := Rpcc.call1_ok called
  exact ⟨rfl, Nat.le_succ _, fun _x member => member⟩

theorem Rpcc.later_leave {c next : Rpcc} {xid : Nat} {result : Int × List UInt8}
    (left : c.leave xid = some (next, result)) : c.Later next := by
  obtain ⟨ca, _member, rfl, _result, rfl⟩ := Rpcc.leave_some left
  exact ⟨rfl, Nat.le_refl _, fun _x member => List.mem_cons_of_mem _ member⟩

theorem Rpcc.later_gotPdu (c : Rpcc) (reply : Reply) : c.Later (c.gotPdu reply) :=
  ⟨rfl, Nat.le_refl _, fun _x member => List.mem_cons_of_mem _ member⟩

theorem Rpcc.later_cancel (c : Rpcc) : c.Later c.cancel :=
  ⟨rfl, Nat.le_refl _, fun _x member => member⟩

theorem Rpcc.later_bound (c : Rpcc) (nonce : UInt32) : c.Later (c.bound nonce) :=
  ⟨rfl, Nat.le_refl _, fun _x member => member⟩

def Rpcs.Later (s next : Rpcs) : Prop :=
  ∀ job ∈ s.jobs, ∃ after ∈ next.jobs, job.Later after

theorem Rpcs.Later.refl (s : Rpcs) : s.Later s :=
  fun job member => ⟨job, member, Job.Later.refl job⟩

theorem Rpcs.later_step {s next : Rpcs} (sound : s.Sound) {action : RpcsAction}
    (taken : s.step action = some next) : s.Later next := by
  cases action with
  | gotPdu c request =>
      cases taken
      exact fun job member => ⟨job, List.mem_append_left _ member, Job.Later.refl job⟩
  | job index action =>
      obtain ⟨job, shared, after, here, acts, rfl⟩ := Rpcs.step_job taken
      intro other member
      have jobSound := sound.jobs job (List.mem_of_getElem? here)
      refine exists_mem_set (fun x => other.Later x) here ?_
        ⟨other, member, Job.Later.refl other⟩
      intro earlier
      have later := acts.later jobSound
      refine ⟨later.request.trans earlier.request, ?_, ?_⟩
      · intro seen
        have same := earlier.stat seen
        exact (later.stat (same ▸ seen)).trans same
      · intro replied
        have same := earlier.reply replied
        exact (later.reply (same ▸ replied)).trans same

/-! ### The invariant -/

variable {s next : Network}

def Network.Given (s : Network) (n : UInt32) (reply : Reply) : Prop :=
  ∃ m, ∃ job ∈ (s.servers m).jobs, job.request.cltNonce = n ∧ job.reply = some reply

structure Request.Issued (request : Request) (c : Rpcc) : Prop where
  named : request.cltNonce ≠ 0
  positive : 1 ≤ request.xid
  issued : request.xid < c.xid
  below : request.xidRep < request.xid
  retired : ∀ x, 1 ≤ x → x ≤ request.xidRep → x ∈ c.retired

structure Network.Issued (s : Network) : Prop where
  nonce : ∀ n, (s.clients n).cltNonce = n
  sound : ∀ n, (s.clients n).Sound
  requests : ∀ r ∈ s.requests, r.Issued (s.clients r.cltNonce)
  distinct : ∀ a ∈ s.requests, ∀ b ∈ s.requests,
    a.cltNonce = b.cltNonce → a.xid = b.xid → a = b

structure Network.Served (s : Network) : Prop where
  nonce : ∀ m, (s.servers m).nonce = m
  sound : ∀ m, (s.servers m).Sound
  once : ∀ m, (s.servers m).Once
  owned : ∀ m, (s.servers m).Owned
  jobs : ∀ m, ∀ job ∈ (s.servers m).jobs, m ≠ 0 ∧ job.request ∈ s.requests

structure Network.Sound (s : Network) : Prop where
  issued : s.Issued
  served : s.Served
  carried : ∀ pdu ∈ s.replies, s.Given pdu.1.owner pdu.2

theorem Network.Sound.start (procs : Nat → Bool) : (Network.start procs).Sound where
  issued :=
    { nonce := fun _n => rfl
      sound := Rpcc.Sound.start
      requests := fun _r member => absurd member List.not_mem_nil
      distinct := fun _a member => absurd member List.not_mem_nil }
  served :=
    { nonce := fun _m => rfl
      sound := fun m => Rpcs.Sound.start m procs
      once := fun m => Rpcs.Once.start m procs
      owned := fun m => Rpcs.Owned.start m procs
      jobs := fun _m _job member => absurd member List.not_mem_nil }
  carried := fun _pdu member => absurd member List.not_mem_nil

theorem Request.Issued.later {request : Request} {c next : Rpcc} (issued : request.Issued c)
    (later : c.Later next) : request.Issued next :=
  { named := issued.named
    positive := issued.positive
    issued := issued.issued.trans_le later.xid
    below := issued.below
    retired := fun x positive below => later.retired x (issued.retired x positive below) }

theorem Network.Sound.given (sound : s.Sound) {n : UInt32} {reply : Reply}
    (given : s.Given n reply) :
    ∃ m, ∃ job ∈ (s.servers m).jobs, job.request ∈ s.requests ∧ job.request.cltNonce = n ∧
      job.request.xid = reply.xid ∧
      (0 ≤ reply.ret → ∃ first ∈ (s.servers m).jobs,
        first.Handled n reply.xid ∧ first.reply = some reply) ∧
      (reply.ret = RpcConst.atmostonceFailure → job.stat = some .forgotten) := by
  obtain ⟨m, job, member, rfl, replied⟩ := given
  have ⟨xid, first, failed⟩ := (sound.served.sound m).reply member replied
  refine ⟨m, job, member, (sound.served.jobs m job member).2, rfl, xid.symm, ?_, failed⟩
  rw [xid]
  exact first

/-! ### Steps -/

theorem Network.Issued.setClient (issued : s.Issued) {n : UInt32} {c : Rpcc} (sound : c.Sound)
    (later : (s.clients n).Later c) (clients : next.clients = Function.update s.clients n c)
    (requests : next.requests = s.requests) : next.Issued := by
  have client : ∀ other, (s.clients other).Later (next.clients other) := by
    intro other
    rw [clients]
    by_cases same : other = n
    · subst same
      rw [Function.update_self]
      exact later
    · rw [Function.update_of_ne same]
      exact ⟨rfl, Nat.le_refl _, fun _x member => member⟩
  refine ⟨?_, ?_, ?_, ?_⟩
  · exact fun other => (client other).cltNonce.trans (issued.nonce other)
  · intro other
    rw [clients]
    by_cases same : other = n
    · subst same
      rw [Function.update_self]
      exact sound
    · rw [Function.update_of_ne same]
      exact issued.sound other
  · intro r member
    rw [requests] at member
    exact (issued.requests r member).later (client r.cltNonce)
  · rw [requests]
    exact issued.distinct

theorem Network.Issued.call (issued : s.Issued) {n : UInt32} (named : n ≠ 0) {c : Rpcc}
    {proc : Nat} {args : List UInt8} {request : Request}
    (called : (s.clients n).call1 proc args = .ok (c, request)) :
    Network.Issued { s.setClient n c with requests := request :: s.requests } := by
  have sound := issued.sound n
  have others : Network.Issued (s.setClient n c) :=
    issued.setClient (sound.call1 called) (Rpcc.later_call1 called) rfl rfl
  have packed := (Rpcc.call1_ok called).2.2.2
  have clt : request.cltNonce = n := by
    rw [packed]
    exact issued.nonce n
  have xid : request.xid = (s.clients n).xid := by rw [packed]
  have xidRep : request.xidRep = (s.clients n).xidRepWindow.front := by rw [packed]
  have next : (s.clients n).xid < c.xid := by
    rw [(Rpcc.call1_ok called).2.2.1]
    exact Nat.lt_succ_self _
  have unused : ∀ r ∈ s.requests, r.cltNonce = n → r.xid ≠ request.xid := by
    intro r member client same
    have earlier := (issued.requests r member).issued
    rw [client, same, xid] at earlier
    exact Nat.lt_irrefl _ earlier
  refine ⟨others.nonce, others.sound, ?_, ?_⟩
  · intro r member
    rcases List.mem_cons.mp member with rfl | before
    · change r.Issued (Function.update s.clients n c r.cltNonce)
      rw [clt, Function.update_self]
      refine ⟨clt ▸ named, xid ▸ sound.positive, xid ▸ next, ?_, ?_⟩
      · rw [xid, xidRep]
        exact sound.front_lt
      · intro x positive below
        rw [xidRep] at below
        exact (Rpcc.later_call1 called).retired x (sound.window.reached x positive below)
    · exact others.requests r before
  · intro a left b right client same
    rcases List.mem_cons.mp left with rfl | before
    · rcases List.mem_cons.mp right with rfl | earlier
      · rfl
      · exact absurd same.symm (unused b earlier (client.symm.trans clt))
    · rcases List.mem_cons.mp right with rfl | earlier
      · exact absurd same (unused a before (client.trans clt))
      · exact issued.distinct a before b earlier client same

theorem Network.Served.more (served : s.Served) (servers : next.servers = s.servers)
    (requests : ∀ r ∈ s.requests, r ∈ next.requests) : next.Served := by
  refine ⟨?_, ?_, ?_, ?_, ?_⟩
  · rw [servers]
    exact served.nonce
  · rw [servers]
    exact served.sound
  · rw [servers]
    exact served.once
  · rw [servers]
    exact served.owned
  · rw [servers]
    intro m job member
    have ⟨named, request⟩ := served.jobs m job member
    exact ⟨named, requests _ request⟩

theorem Rpcs.step_nonce {s next : Rpcs} {action : RpcsAction} (taken : s.step action = some next) :
    next.nonce = s.nonce := by
  cases action with
  | gotPdu c request =>
      cases taken
      rfl
  | job index action =>
      obtain ⟨job, shared, after, _here, acts, rfl⟩ := Rpcs.step_job taken
      exact acts.nonce

theorem Network.Served.setServer (served : s.Served) {m : UInt32} {server : Rpcs}
    {action : RpcsAction} (taken : (s.servers m).step action = some server)
    (numbered : action.Numbered) (owned : server.Owned)
    (jobs : ∀ job ∈ server.jobs, m ≠ 0 ∧ job.request ∈ s.requests)
    (servers : next.servers = Function.update s.servers m server)
    (requests : next.requests = s.requests) : next.Served := by
  have every : ∀ property : UInt32 → Rpcs → Prop, (∀ m, property m (s.servers m)) →
      property m server → ∀ other, property other (next.servers other) := by
    intro property before after other
    rw [servers]
    by_cases same : other = m
    · subst same
      rw [Function.update_self]
      exact after
    · rw [Function.update_of_ne same]
      exact before other
  refine ⟨?_, ?_, ?_, ?_, ?_⟩
  · exact every (fun m server => server.nonce = m) served.nonce ((Rpcs.step_nonce taken).trans (served.nonce m))
  · exact every (fun _ server => server.Sound) served.sound
      ((served.sound m).step taken)
  · exact every (fun _ server => server.Once) served.once
      ((served.once m).step (served.sound m) numbered taken)
  · exact every (fun _ server => server.Owned) served.owned owned
  · rw [requests]
    exact every (fun m server => ∀ job ∈ server.jobs, m ≠ 0 ∧ job.request ∈ s.requests)
      served.jobs jobs

theorem Network.Steps.served {action : NetworkAction} (steps : s.Steps action next)
    (sound : s.Sound) : next.Served := by
  have served := sound.served
  cases steps with
  | refused n proc args => exact served
  | call n proc args named c request called =>
      exact served.more rfl (fun _r member => List.mem_cons_of_mem _ member)
  | leave _ _ _ _ _ _ _ | cancel _ | bind _ _ _ _ | reply _ _ _ _ =>
      exact served.more rfl (fun _r member => member)
  | request m index c named request member owned server taken =>
      have issued := sound.issued.requests request member
      refine served.setServer taken ⟨issued.named, issued.below⟩ ?_ ?_ rfl rfl
      · cases taken
        exact (served.owned m).gotPdu owned
      · cases taken
        intro job inside
        rcases List.mem_append.mp inside with before | last
        · exact served.jobs m job before
        · rw [List.mem_singleton.mp last]
          exact ⟨named, member⟩
  | job m index action server taken =>
      obtain ⟨job, shared, after, here, acts, rfl⟩ := Rpcs.step_job taken
      refine served.setServer taken trivial ((served.owned m).acts here acts) ?_ rfl rfl
      have member := List.mem_of_getElem? here
      intro other inside
      rcases List.mem_or_eq_of_mem_set inside with before | rfl
      · exact served.jobs m other before
      · rw [(acts.later ((served.sound m).jobs job member)).request]
        exact served.jobs m job member

theorem Network.Steps.given {action : NetworkAction} (steps : s.Steps action next)
    (sound : s.Sound) {n : UInt32} {reply : Reply} (given : s.Given n reply) :
    next.Given n reply := by
  have moved : ∀ {m : UInt32} {server : Rpcs} {action : RpcsAction},
      (s.servers m).step action = some server →
      ∃ m', ∃ job ∈ (Function.update s.servers m server m').jobs,
        job.request.cltNonce = n ∧ job.reply = some reply := by
    intro m server action taken
    obtain ⟨m', job, member, client, replied⟩ := given
    by_cases same : m' = m
    · subst same
      obtain ⟨after, inside, later⟩ :=
        Rpcs.later_step (sound.served.sound m') taken job member
      refine ⟨m', after, ?_, ?_, ?_⟩
      · rw [Function.update_self]
        exact inside
      · rw [later.request]
        exact client
      · rw [later.reply (by rw [replied]; exact Option.some_ne_none _)]
        exact replied
    · refine ⟨m', job, ?_, client, replied⟩
      rw [Function.update_of_ne same]
      exact member
  cases steps with
  | request m index c named request member owned server taken => exact moved taken
  | job m index action server taken => exact moved taken
  | refused _ _ _ | call _ _ _ _ _ _ _ | leave _ _ _ _ _ _ _ | cancel _ | bind _ _ _ _
  | reply _ _ _ _ => exact given

theorem Network.Sound.step (sound : s.Sound) {action : NetworkAction}
    (taken : s.step action = some next) : next.Sound := by
  have steps := Network.step_cases taken
  have kept : ∀ pdu ∈ s.replies, next.Given pdu.1.owner pdu.2 :=
    fun pdu member => steps.given sound (sound.carried pdu member)
  refine ⟨?_, steps.served sound, ?_⟩
  · have issued := sound.issued
    cases steps with
    | refused n proc args => exact issued
    | call n proc args named c request called => exact issued.call named called
    | leave n xid c result left binds bound =>
        exact issued.setClient ((issued.sound n).leave left) (Rpcc.later_leave left) rfl rfl
    | cancel n =>
        exact issued.setClient (issued.sound n).cancel (Rpcc.later_cancel _) rfl rfl
    | bind index n body member =>
        exact issued.setClient ((issued.sound n).bound _) (Rpcc.later_bound _ _) rfl rfl
    | reply index c reply member =>
        obtain ⟨_m, job, _inside, request, client, xid, _rest⟩ :=
          sound.given (sound.carried _ member)
        have numbered := (issued.requests _ request).issued
        rw [client, xid] at numbered
        exact issued.setClient ((issued.sound _).gotPdu numbered) (Rpcc.later_gotPdu _ _) rfl rfl
    | request _ _ _ _ _ _ _ _ _ | job _ _ _ _ _ =>
        exact ⟨issued.nonce, issued.sound, issued.requests, issued.distinct⟩
  · cases steps with
    | job m index action server acted =>
        rintro ⟨c, reply⟩ member
        rcases List.mem_append.mp member with sent | before
        · obtain ⟨i, job, here, _send, rfl, replied⟩ := Rpcs.sends_some sent
          have inside := List.mem_of_getElem? here
          apply (Network.Steps.job m index action server acted).given sound
          exact ⟨m, job, inside, ((sound.served.owned m).jobs job inside).symm, replied⟩
        · exact kept _ before
    | refused _ _ _ | call _ _ _ _ _ _ _ | leave _ _ _ _ _ _ _ | cancel _ | bind _ _ _ _
    | reply _ _ _ _ | request _ _ _ _ _ _ _ _ _ => exact kept

end CseLab.Rpc
