import CseLab.Rpc.Connection
import CseLab.Rpc.PoolDrain

/-! `rpcs` with its connections and its dispatch pool, under `select`: bytes come
in on the sockets, `read_cb` hands whole PDUs to `got_pdu`, and the pool's queue
refuses them while it is full. -/

namespace CseLab.Rpc

open BigEndian Transition

/-- A connection; `eof` says that the peer has closed its end, or that an error is
pending. -/
structure Endpoint where
  receiver : Receiver
  unread : List UInt8
  eof : Bool

def Endpoint.readable (c : Endpoint) : Prop := c.unread ≠ [] ∨ c.eof = true

instance (c : Endpoint) : Decidable c.readable := inferInstanceAs (Decidable (_ ∨ _))

/-- A live connection holds a whole PDU that `got_pdu` has not taken. -/
def Endpoint.holds (c : Endpoint) : Prop :=
  c.receiver.dead = false ∧ c.receiver.rpdu.buf.isSome ∧
    c.receiver.rpdu.sz = c.receiver.rpdu.solong

instance (c : Endpoint) : Decidable c.holds := inferInstanceAs (Decidable (_ ∧ _))

structure PollServer where
  conns : Nat → Endpoint
  reachable : Bool
  dispatchpool : ThrPool

/-- Descriptors are not used again; on one that is not connected nothing arrives. -/
def PollServer.start : PollServer :=
  { conns := fun _ =>
      { receiver := { dead := false, rpdu := Charbuf.empty }, unread := [], eof := false }
    reachable := true
    dispatchpool := .start 6 false }

def PollServer.setConn (s : PollServer) (fd : Nat) (c : Endpoint) : PollServer :=
  { s with conns := Function.update s.conns fd c }

def PollServer.gotPdu (s : PollServer) (wakes : Option Nat) : Option (Bool × PollServer) :=
  if s.reachable then
    (s.dispatchpool.step (.addJob wakes)).map fun pool =>
      ((s.dispatchpool.jobq.enq (some s.dispatchpool.calls)).isSome,
        { s with dispatchpool := pool })
  else some (true, s)

/-- `read_cb`; it calls `got_pdu` where a `got_pdu` that takes all would get a PDU. -/
def PollServer.readCb (s : PollServer) (fd : Nat) (first second : ReadResult)
    (wakes : Option Nat) : Option PollServer :=
  let c := s.conns fd
  let goOn (takes : Bool) := c.receiver.step c.unread (.readCb first second takes)
  let keep (s : PollServer) (taken : Nat) (receiver : Receiver) : PollServer :=
    s.setConn fd { c with receiver := receiver, unread := c.unread.drop taken }
  (goOn true).bind fun (taken, receiver, pdu) =>
    match pdu with
    | none => some (keep s taken receiver)
    | some _ =>
        (s.gotPdu wakes).bind fun (succ, next) =>
          (goOn succ).map fun (taken, receiver, _) => keep next taken receiver

/-- `execute` is the end of a `dispatch`, `close` is `closeconn` or a failed write. -/
inductive PollAction where
  | arrive (fd : Nat) (bytes : List UInt8)
  | hangUp (fd : Nat)
  | readCb (fd : Nat) (first second : ReadResult) (wakes : Option Nat)
  | takeJob (index : Nat) (wakes : Option Nat)
  | execute (index : Nat)
  | wakeWorker (index : Nat)
  | close (fd : Nat)
  | setReachable (reachable : Bool)

def PollServer.work (s : PollServer) (action : PoolAction) : Option PollServer :=
  (s.dispatchpool.step action).map fun pool => { s with dispatchpool := pool }

def PollServer.step (s : PollServer) : PollAction → Option PollServer
  | .arrive fd bytes =>
      let c := s.conns fd
      if c.eof then none else some (s.setConn fd { c with unread := c.unread ++ bytes })
  | .hangUp fd => some (s.setConn fd { s.conns fd with eof := true })
  | .readCb fd first second wakes =>
      if (s.conns fd).readable then s.readCb fd first second wakes else none
  | .takeJob index wakes => s.work (.takeJob index wakes)
  | .execute index => s.work (.execute index)
  | .wakeWorker index => s.work (.wakeWorker index)
  | .close fd =>
      let c := s.conns fd
      (c.receiver.step c.unread .close).map fun (taken, receiver, _) =>
        s.setConn fd { c with receiver := receiver, unread := c.unread.drop taken }
  | .setReachable reachable => some { s with reachable := reachable }

/-- A connection holds a PDU that the queue would take, and nothing will offer it. -/
def PollServer.Stranded (s : PollServer) (fd : Nat) : Prop :=
  (s.conns fd).holds ∧ ¬(s.conns fd).readable ∧
    s.dispatchpool.jobq.q.length < s.dispatchpool.jobq.max

/-- No worker takes a job from a full queue while a connection that nobody will
read holds a PDU. -/
def PollServer.Attended (s : PollServer) : PollAction → Prop
  | .takeJob _ _ =>
      s.dispatchpool.jobq.q.length = s.dispatchpool.jobq.max →
        ∀ fd, (s.conns fd).holds → (s.conns fd).readable
  | _ => True

/-! ### The queue under one step -/

theorem ThrPool.Enq.queue {s next : ThrPool} {e : PoolJob} {blocking : Bool}
    (queued : s.Enq e blocking next) :
    s.jobq.q.length ≤ next.jobq.q.length ∧ next.jobq.max = s.jobq.max := by
  cases queued with
  | quiet room awake =>
      constructor
      · simp only [List.length_append, Nat.le_add_right]
      · rfl
  | signal room index sleeps =>
      constructor
      · simp only [List.length_append, Nat.le_add_right]
      · rfl
  | wait full blocks => exact ⟨le_rfl, rfl⟩
  | refuse full returns => exact ⟨le_rfl, rfl⟩

theorem ThrPool.takeJob_queue {s next : ThrPool} {index : Nat} {wakes : Option Nat}
    (taken : s.takeJob index wakes = some next) :
    next.jobq.q.length = s.jobq.q.length - 1 ∧ next.jobq.max = s.jobq.max := by
  unfold ThrPool.takeJob Fifo.deq at taken
  cases queue : s.jobq.q with
  | nil =>
      rw [queue] at taken
      cases taken
      exact ⟨congrArg List.length queue, rfl⟩
  | cons e rest =>
      rw [queue] at taken
      dsimp only at taken
      split at taken
      · cases wakes with
        | none =>
            obtain ⟨-, same⟩ := Option.ite_none_right_eq_some.mp taken
            cases same
            exact ⟨rfl, rfl⟩
        | some waiter =>
            obtain ⟨item, -, same⟩ := Option.map_eq_some_iff.mp taken
            cases same
            exact ⟨rfl, rfl⟩
      · cases taken
        exact ⟨rfl, rfl⟩

/-- What `got_pdu` does to the pool, and that it refuses only while the queue is full. -/
theorem PollServer.gotPdu_cases {s next : PollServer} {succ : Bool} {wakes : Option Nat}
    (got : s.gotPdu wakes = some (succ, next)) :
    next.conns = s.conns ∧
    (next.dispatchpool = s.dispatchpool ∨ s.dispatchpool.Step next.dispatchpool) ∧
    s.dispatchpool.jobq.q.length ≤ next.dispatchpool.jobq.q.length ∧
    next.dispatchpool.jobq.max = s.dispatchpool.jobq.max ∧
    (succ = false → s.dispatchpool.jobq.max ≤ s.dispatchpool.jobq.q.length) := by
  unfold PollServer.gotPdu at got
  split at got
  · obtain ⟨pool, added, same⟩ := Option.map_eq_some_iff.mp got
    cases same
    have stepped := ThrPool.step_cases added
    obtain ⟨-, queued⟩ := Option.ite_none_right_eq_some.mp added
    obtain ⟨longer, same⟩ := (ThrPool.enq_cases queued).queue
    refine ⟨rfl, .inr stepped, longer, same, fun refused => ?_⟩
    by_contra room
    simp only [Fifo.enq, if_pos (Or.inr (Nat.lt_of_not_le room)), Option.isSome_some,
      Bool.true_eq_false] at refused
  · cases got
    exact ⟨rfl, .inl rfl, le_rfl, rfl, nofun⟩

theorem Receiver.readCb_takes {r receiver : Receiver} {stream : List UInt8}
    {first second : ReadResult} {taken : Nat} {pdu : Option (List UInt8)}
    (stepped : r.step stream (.readCb first second true) = some (taken, receiver, pdu))
    (alive : receiver.dead = false) (some : receiver.rpdu.buf.isSome) :
    receiver.rpdu.sz ≠ receiver.rpdu.solong := by
  dsimp only [Receiver.step] at stepped
  split at stepped
  · rename_i dead
    cases stepped
    rw [alive] at dead
    cases dead
  · obtain ⟨⟨_, rpdu, succ⟩, -, offered⟩ := Option.map_eq_some_iff.mp stepped
    unfold Receiver.offer at offered
    dsimp only at offered
    split at offered
    · rename_i none
      cases offered
      rw [none] at some
      cases some
    · split at offered
      · cases offered
        cases some
      · rename_i part
        cases offered
        exact fun whole => part ⟨whole, rfl⟩

/-- What `read_cb` does: the PDU it leaves is one that the full queue refused. -/
theorem PollServer.readCb_cases {s next : PollServer} {fd : Nat} {first second : ReadResult}
    {wakes : Option Nat} (read : s.readCb fd first second wakes = some next) :
    (∃ c, next.conns = Function.update s.conns fd c ∧
      (c.holds → s.dispatchpool.jobq.max ≤ s.dispatchpool.jobq.q.length)) ∧
    (next.dispatchpool = s.dispatchpool ∨ s.dispatchpool.Step next.dispatchpool) ∧
    s.dispatchpool.jobq.q.length ≤ next.dispatchpool.jobq.q.length ∧
    next.dispatchpool.jobq.max = s.dispatchpool.jobq.max := by
  obtain ⟨⟨taken, receiver, pdu⟩, taking, rest⟩ := Option.bind_eq_some_iff.mp read
  cases pdu with
  | none =>
      cases rest
      refine ⟨⟨_, rfl, fun holds => ?_⟩, .inl rfl, le_rfl, rfl⟩
      exact absurd holds.2.2 (Receiver.readCb_takes taking holds.1 holds.2.1)
  | some b =>
      obtain ⟨⟨succ, middle⟩, got, rest⟩ := Option.bind_eq_some_iff.mp rest
      obtain ⟨⟨taken, receiver, pdu⟩, offering, same⟩ := Option.map_eq_some_iff.mp rest
      cases same
      obtain ⟨conns, stepped, longer, max, full⟩ := PollServer.gotPdu_cases got
      refine ⟨⟨_, congrArg (Function.update · fd _) conns, fun holds => ?_⟩, stepped, longer, max⟩
      cases succ with
      | false => exact full rfl
      | true => exact absurd holds.2.2 (Receiver.readCb_takes offering holds.1 holds.2.1)

/-! ### Stranded PDUs -/

def PollServer.Sound (s : PollServer) : Prop := s.dispatchpool.Signalled 6 0

theorem PollServer.Sound.start : PollServer.start.Sound := ThrPool.Signalled.start 6 false

theorem PollServer.work_cases {s next : PollServer} {action : PoolAction}
    (worked : s.work action = some next) :
    next.conns = s.conns ∧ s.dispatchpool.step action = some next.dispatchpool := by
  obtain ⟨pool, stepped, same⟩ := Option.map_eq_some_iff.mp worked
  cases same
  exact ⟨rfl, stepped⟩

theorem PollServer.step_pool {s next : PollServer} {action : PollAction}
    (stepped : s.step action = some next) :
    next.dispatchpool = s.dispatchpool ∨ s.dispatchpool.Step next.dispatchpool := by
  cases action with
  | arrive fd bytes =>
      obtain ⟨-, same⟩ := Option.ite_none_left_eq_some.mp stepped
      cases same
      exact .inl rfl
  | hangUp fd =>
      cases stepped
      exact .inl rfl
  | readCb fd first second wakes =>
      obtain ⟨-, read⟩ := Option.ite_none_right_eq_some.mp stepped
      exact (PollServer.readCb_cases read).2.1
  | takeJob index wakes => exact .inr (ThrPool.step_cases (PollServer.work_cases stepped).2)
  | execute index => exact .inr (ThrPool.step_cases (PollServer.work_cases stepped).2)
  | wakeWorker index => exact .inr (ThrPool.step_cases (PollServer.work_cases stepped).2)
  | close fd =>
      cases stepped
      exact .inl rfl
  | setReachable reachable =>
      cases stepped
      exact .inl rfl

theorem PollServer.Sound.step {s next : PollServer} (sound : s.Sound) {action : PollAction}
    (stepped : s.step action = some next) : next.Sound := by
  unfold PollServer.Sound
  rcases PollServer.step_pool stepped with same | moved
  · rw [same]
    exact sound
  · exact ThrPool.Signalled.step sound (by decide) moved

theorem PollServer.not_stranded_set {s next : PollServer} {fd : Nat} {c : Endpoint}
    (before : ∀ other, ¬s.Stranded other) (conns : next.conns = Function.update s.conns fd c)
    (longer : s.dispatchpool.jobq.q.length ≤ next.dispatchpool.jobq.q.length)
    (max : next.dispatchpool.jobq.max = s.dispatchpool.jobq.max)
    (here : c.holds → ¬c.readable → s.dispatchpool.jobq.max ≤ s.dispatchpool.jobq.q.length) :
    ∀ other, ¬next.Stranded other := by
  rintro other ⟨holds, silent, room⟩
  rw [conns] at holds silent
  by_cases same : other = fd
  · subst same
    rw [Function.update_self] at holds silent
    have full := here holds silent
    omega
  · rw [Function.update_of_ne same] at holds silent
    exact before other ⟨holds, silent, by omega⟩

theorem PollServer.not_stranded_same {s next : PollServer} (before : ∀ fd, ¬s.Stranded fd)
    (conns : next.conns = s.conns) (jobq : next.dispatchpool.jobq = s.dispatchpool.jobq) :
    ∀ fd, ¬next.Stranded fd := by
  intro fd stranded
  unfold PollServer.Stranded at stranded
  rw [conns, jobq] at stranded
  exact before fd stranded

theorem PollServer.work_jobq {s next : PollServer} {action : PoolAction}
    (worked : s.work action = some next)
    (plain : ∀ s next : ThrPool, s.step action = some next → next.jobq = s.jobq) :
    next.dispatchpool.jobq = s.dispatchpool.jobq :=
  plain _ _ (PollServer.work_cases worked).2

theorem PollServer.takeJob_strands {s next : PollServer} {index : Nat} {wakes : Option Nat}
    (sound : s.Sound) (before : ∀ fd, ¬s.Stranded fd)
    (stepped : s.step (.takeJob index wakes) = some next) :
    (∀ fd, ¬next.Stranded fd) ↔ s.Attended (.takeJob index wakes) := by
  have limit := sound.limit
  have bound := sound.bound
  obtain ⟨conns, worked⟩ := PollServer.work_cases stepped
  obtain ⟨-, taken⟩ := Option.ite_none_right_eq_some.mp worked
  obtain ⟨shorter, max⟩ := ThrPool.takeJob_queue taken
  constructor
  · intro after full fd holds
    by_contra silent
    refine after fd ⟨conns ▸ holds, conns ▸ silent, ?_⟩
    omega
  · rintro attended fd ⟨holds, silent, room⟩
    rw [conns] at holds silent
    refine silent (attended ?_ fd holds)
    by_contra notFull
    exact before fd ⟨holds, silent, by omega⟩

theorem PollServer.stranded_step {s next : PollServer} {action : PollAction} (sound : s.Sound)
    (before : ∀ fd, ¬s.Stranded fd) (stepped : s.step action = some next) :
    (∀ fd, ¬next.Stranded fd) ↔ s.Attended action := by
  cases action with
  | arrive fd bytes =>
      obtain ⟨-, same⟩ := Option.ite_none_left_eq_some.mp stepped
      cases same
      refine iff_of_true (PollServer.not_stranded_set before rfl le_rfl rfl ?_) trivial
      intro holds silent
      have quiet : ¬(s.conns fd).readable := fun readable =>
        silent (readable.imp_left (fun some none => some (List.append_eq_nil_iff.mp none).1))
      exact Nat.le_of_not_lt (fun room => before fd ⟨holds, quiet, room⟩)
  | hangUp fd =>
      cases stepped
      refine iff_of_true (PollServer.not_stranded_set before rfl le_rfl rfl ?_) trivial
      exact fun _ silent => absurd (Or.inr rfl) silent
  | readCb fd first second wakes =>
      obtain ⟨-, read⟩ := Option.ite_none_right_eq_some.mp stepped
      obtain ⟨⟨c, conns, full⟩, -, longer, max⟩ := PollServer.readCb_cases read
      exact iff_of_true
        (PollServer.not_stranded_set before conns longer max (fun holds _ => full holds)) trivial
  | takeJob index wakes => exact PollServer.takeJob_strands sound before stepped
  | execute index =>
      refine iff_of_true (PollServer.not_stranded_same before (PollServer.work_cases stepped).1
        (PollServer.work_jobq stepped ?_)) trivial
      intro pool after moved
      dsimp only [ThrPool.step] at moved
      split at moved
      · cases moved
        rfl
      · cases moved
  | wakeWorker index =>
      refine iff_of_true (PollServer.not_stranded_same before (PollServer.work_cases stepped).1
        (PollServer.work_jobq stepped ?_)) trivial
      intro pool after moved
      obtain ⟨-, same⟩ := Option.ite_none_right_eq_some.mp moved
      cases same
      rfl
  | close fd =>
      cases stepped
      refine iff_of_true (PollServer.not_stranded_set before rfl le_rfl rfl ?_) trivial
      exact fun holds _ => nomatch holds.1
  | setReachable reachable =>
      cases stepped
      exact iff_of_true (PollServer.not_stranded_same before rfl rfl) trivial

/-! ### A full queue, and then silence -/

private def request : List UInt8 := bytes32 28 ++ List.replicate 24 0

private def oneRequest : List PollAction :=
  [.arrive 0 request, .readCb 0 (.got 4) (.got 24) none]

/-- Nobody has taken any of `k` requests of connection 0. -/
private structure Flooded (k : Nat) (s : PollServer) : Prop where
  conns : s.conns = PollServer.start.conns
  reachable : s.reachable = true
  idle : s.dispatchpool.destructor = .idle
  blockadd : s.dispatchpool.blockadd = false
  workers : s.dispatchpool.workers = List.replicate 6 .ready
  blocked : s.dispatchpool.blocked = []
  max : s.dispatchpool.jobq.max = 600
  queue : s.dispatchpool.jobq.q.length = k

private def arrived : Endpoint :=
  { receiver := { dead := false, rpdu := Charbuf.empty }, unread := request, eof := false }

private def offered (succ : Bool) : Endpoint :=
  { receiver := { dead := false
                  rpdu := if succ then Charbuf.empty
                    else { buf := some request, sz := 28, solong := 28 } }
    unread := []
    eof := false }

private theorem read_request (takes : Bool) :
    arrived.receiver.step request (.readCb (.got 4) (.got 24) takes) =
      some (28, (offered takes).receiver, if takes then some request else none) := by
  cases takes with
  | true => rfl
  | false => rfl

private theorem readCb_request {s : PollServer} (wakes : Option Nat) (here : s.conns 0 = arrived) :
    s.readCb 0 (.got 4) (.got 24) wakes =
      (s.gotPdu wakes).map fun (succ, next) => next.setConn 0 (offered succ) := by
  unfold PollServer.readCb
  rw [here]
  dsimp only
  have unread : arrived.unread = request := rfl
  rw [unread, read_request, Option.bind_some]
  simp only [if_true]
  cases s.gotPdu wakes with
  | none => rfl
  | some got =>
      obtain ⟨succ, next⟩ := got
      rw [Option.bind_some, Option.map_some]
      dsimp only
      rw [read_request, Option.map_some]
      rfl

private theorem Flooded.read {k : Nat} {s : PollServer} (flooded : Flooded k s) :
    run PollServer.step s oneRequest =
      ((s.setConn 0 arrived).gotPdu none).map fun (succ, next) => next.setConn 0 (offered succ) := by
  have came : s.step (.arrive 0 request) = some (s.setConn 0 arrived) := by
    simp only [PollServer.step, flooded.conns]
    rfl
  have readable : ((s.setConn 0 arrived).conns 0).readable := .inl (List.cons_ne_nil _ _)
  rw [oneRequest, run_cons, came, Option.bind_some, run_cons, PollServer.step, if_pos readable,
    readCb_request none rfl]
  exact Option.bind_fun_some _

private theorem Flooded.oneMore {k : Nat} {s : PollServer} (flooded : Flooded k s) (room : k < 600) :
    ∃ next, run PollServer.step s oneRequest = some next ∧ Flooded (k + 1) next := by
  have space : s.dispatchpool.jobq.max = 0 ∨
      s.dispatchpool.jobq.q.length < s.dispatchpool.jobq.max := by
    rw [flooded.max, flooded.queue]
    exact .inr room
  have awake : Worker.asleep ∉ s.dispatchpool.workers := by
    rw [flooded.workers]
    decide
  rw [flooded.read]
  simp only [PollServer.gotPdu, PollServer.setConn, flooded.reachable, if_true, ThrPool.step,
    flooded.idle, ThrPool.enq, Fifo.enq, if_pos space, ThrPool.signalNonEmpty, ThrPool.accept,
    if_neg awake, Option.map_some, Option.isSome_some]
  refine ⟨_, rfl, ?_, rfl, rfl, flooded.blockadd, flooded.workers, flooded.blocked,
    flooded.max, ?_⟩
  · rw [Function.update_idem, flooded.conns]
    exact Function.update_eq_self 0 PollServer.start.conns
  · exact (List.length_append).trans (congrArg (· + 1) flooded.queue)

private theorem Flooded.start : Flooded 0 .start := ⟨rfl, rfl, rfl, rfl, rfl, rfl, rfl, rfl⟩

private def flood (k : Nat) : List PollAction := (List.replicate k oneRequest).flatten

private theorem flood_succ (k : Nat) : flood (k + 1) = flood k ++ oneRequest := by
  rw [flood, List.replicate_succ', List.flatten_append, List.flatten_singleton]
  rfl

private theorem flooded (k : Nat) (within : k ≤ 600) :
    ∃ s, run PollServer.step .start (flood k) = some s ∧ Flooded k s := by
  induction k with
  | zero => exact ⟨_, rfl, Flooded.start⟩
  | succ k ih =>
      obtain ⟨s, ran, flooded⟩ := ih (Nat.le_of_succ_le within)
      obtain ⟨next, more, flooded⟩ := flooded.oneMore within
      refine ⟨next, ?_, flooded⟩
      rw [flood_succ, run_append, ran, Option.bind_some, more]

/-- The queue is full, the first connection holds a request and nobody has taken a job. -/
private structure Refused (s : PollServer) : Prop where
  conns : s.conns = Function.update PollServer.start.conns 0 (offered false)
  workers : s.dispatchpool.workers = List.replicate 6 .ready
  blocked : s.dispatchpool.blocked = []
  max : s.dispatchpool.jobq.max = 600
  queue : s.dispatchpool.jobq.q.length = 600

private theorem Flooded.refused {s : PollServer} (flooded : Flooded 600 s) :
    ∃ next, run PollServer.step s oneRequest = some next ∧ Refused next := by
  have full : ¬(s.dispatchpool.jobq.max = 0 ∨
      s.dispatchpool.jobq.q.length < s.dispatchpool.jobq.max) := by
    rw [flooded.max, flooded.queue]
    decide
  rw [flooded.read]
  simp only [PollServer.gotPdu, PollServer.setConn, flooded.reachable, if_true, ThrPool.step,
    flooded.idle, ThrPool.enq, Fifo.enq, if_neg full, ThrPool.reject, flooded.blockadd,
    Bool.false_eq_true, if_false, Option.map_some, Option.isSome_none]
  refine ⟨_, rfl, ?_, flooded.workers, flooded.blocked, flooded.max, flooded.queue⟩
  simp only [Function.update_idem, flooded.conns]

private theorem refused_run :
    ∃ s, run PollServer.step .start (flood 601) = some s ∧ Refused s := by
  obtain ⟨before, ran, flooded⟩ := flooded 600 le_rfl
  obtain ⟨full, more, refused⟩ := flooded.refused
  refine ⟨full, ?_, refused⟩
  rw [flood_succ, run_append, ran, Option.bind_some, more]

private theorem PollServer.takes {s : PollServer}
    (workers : s.dispatchpool.workers = List.replicate 6 .ready)
    (blocked : s.dispatchpool.blocked = []) :
    ∃ pool, s.dispatchpool.takeJob 0 none = some pool ∧
      s.step (.takeJob 0 none) = some { s with dispatchpool := pool } := by
  have ready : s.dispatchpool.workers[0]? = some .ready := by
    rw [workers]
    rfl
  have taken : (s.dispatchpool.takeJob 0 none).isSome := by
    unfold ThrPool.takeJob
    cases s.dispatchpool.jobq.deq with
    | none => rfl
    | some next =>
        dsimp only
        split
        · simp only [ThrPool.signalHasSpace, blocked, if_true, Option.isSome_some]
        · rfl
  obtain ⟨pool, taken⟩ := Option.isSome_iff_exists.mp taken
  refine ⟨pool, taken, ?_⟩
  simp only [PollServer.step, PollServer.work, ThrPool.step, ready, true_or, if_true, taken,
    Option.map_some]

/-! ### Runs -/

/-- A run strands nothing if and only if no worker makes room behind its back. -/
theorem requests_not_stranded {actions : List PollAction} {final : PollServer}
    (ran : run PollServer.step .start actions = some final) :
    Throughout PollServer.step (fun s => ∀ fd, ¬s.Stranded fd) .start actions ↔
      Guarded PollServer.step PollServer.Attended .start actions :=
  throughout_iff_guarded (fun _ _ _ sound stepped => PollServer.Sound.step sound stepped)
    (fun _ _ _ sound before stepped => PollServer.stranded_step sound before stepped)
    PollServer.Sound.start (fun _ stranded => nomatch stranded.1.2.1) ran

private def crowded : Endpoint := { offered false with unread := request }

private theorem flood_attended (k : Nat) :
    Guarded PollServer.step PollServer.Attended .start (flood k ++ [.arrive 0 request]) := by
  refine Guarded.mono (fun s _action quiet => quiet s)
    (Guarded.ofForall fun action member => (?_ : ∀ s : PollServer, s.Attended action))
  intro s
  rcases List.mem_append.mp member with flooding | last
  · obtain ⟨one, copies, inside⟩ := List.mem_flatten.mp flooding
    rw [List.eq_of_mem_replicate copies] at inside
    rcases List.mem_pair.mp inside with rfl | rfl <;> trivial
  · cases List.mem_singleton.mp last
    trivial

/-- The queue is full and holds up a request, but there is more to read behind it. -/
theorem requests_not_stranded_full :
    ∃ s, run PollServer.step .start (flood 601 ++ [.arrive 0 request]) = some s ∧
      s.dispatchpool.jobq.q.length = s.dispatchpool.jobq.max ∧ (s.conns 0).holds ∧
      Throughout PollServer.step (fun s => ∀ fd, ¬s.Stranded fd) .start
        ((flood 601 ++ [.arrive 0 request]) ++ [.takeJob 0 none]) := by
  obtain ⟨full, ran, refused⟩ := refused_run
  have came : full.step (.arrive 0 request) = some (full.setConn 0 crowded) := by
    simp only [PollServer.step, refused.conns, Function.update_self]
    rfl
  have ranOn : run PollServer.step .start (flood 601 ++ [.arrive 0 request]) =
      some (full.setConn 0 crowded) := by
    rw [run_append, ran, Option.bind_some, run_cons, came]
    rfl
  obtain ⟨pool, -, worked⟩ :=
    PollServer.takes (s := full.setConn 0 crowded) refused.workers refused.blocked
  have ranAll : run PollServer.step .start
      ((flood 601 ++ [.arrive 0 request]) ++ [.takeJob 0 none]) =
        some { full.setConn 0 crowded with dispatchpool := pool } := by
    rw [run_append, ranOn, Option.bind_some, run_cons, worked]
    rfl
  have first : (full.setConn 0 crowded).conns 0 = crowded := by
    dsimp only [PollServer.setConn]
    rw [Function.update_self]
  refine ⟨_, ranOn, refused.queue.trans refused.max.symm, ?_, ?_⟩
  · rw [first]
    exact ⟨rfl, rfl, rfl⟩
  · refine (requests_not_stranded ranAll).mpr ((flood_attended 601).append fun middle same => ?_)
    cases ranOn.symm.trans same
    refine ⟨fun _full fd holds => ?_, fun _next _taken => trivial⟩
    by_cases own : fd = 0
    · rw [own, first]
      exact .inl (List.cons_ne_nil _ _)
    · have others : (full.setConn 0 crowded).conns fd = PollServer.start.conns fd := by
        dsimp only [PollServer.setConn]
        rw [Function.update_of_ne own, refused.conns, Function.update_of_ne own]
      rw [others] at holds
      cases holds.2.1

/-- 601 requests of one connection, and a worker that takes the first. -/
theorem request_stranded :
    ∃ s, run PollServer.step .start (flood 601 ++ [.takeJob 0 none]) = some s ∧ s.Stranded 0 := by
  obtain ⟨full, ran, refused⟩ := refused_run
  obtain ⟨pool, taken, worked⟩ := PollServer.takes refused.workers refused.blocked
  have conn : full.conns 0 = offered false := by rw [refused.conns, Function.update_self]
  refine ⟨{ full with dispatchpool := pool }, ?_, ?_, ?_, ?_⟩
  · rw [run_append, ran, Option.bind_some, run_cons, worked]
    rfl
  · simp only [conn]
    exact ⟨rfl, rfl, rfl⟩
  · simp only [conn]
    decide
  · obtain ⟨shorter, same⟩ := ThrPool.takeJob_queue taken
    simp only [shorter, same, refused.queue, refused.max]
    decide

end CseLab.Rpc
