import CseLab.Rpc.Acknowledgement
import CseLab.Rpc.Transport

/-! Replies across a reconnect. A waiting call is covered: a copy of its request
is yet to be checked, a job works on it, or a reply is on its way. A copy that
is dropped leaves the reply to the job it found, which has to pick the
connection that the client waits on. -/

namespace CseLab.Rpc

open BigEndian Slots Transition

variable {s next : Transport}

/-! ### Covered calls -/

def Transport.Unchecked (s : Transport) (xid : Nat) (c : Conn) : Prop :=
  (∃ request ∈ (s.channels c).up, request.cltNonce = s.client.cltNonce ∧ request.xid = xid) ∨
    ∃ job ∈ s.server.jobs, job.For s.client.cltNonce xid ∧ job.conn = c ∧
      (job.phase = .queued ∨ job.phase = .admitted)

def Transport.Working (s : Transport) (xid : Nat) : Prop :=
  ∃ job ∈ s.server.jobs, job.Handled s.client.cltNonce xid ∧
    (job.phase = .running ∨ job.phase = .returned ∨ job.phase = .recorded)

def Transport.Replying (s : Transport) (xid : Nat) (c : Conn) : Prop :=
  (∃ job ∈ s.server.jobs, job.For s.client.cltNonce xid ∧ job.conn = c ∧ job.phase = .sending) ∨
    ∃ reply ∈ (s.channels c).down, reply.xid = xid

def Transport.Covered (s : Transport) (xid : Nat) (c : Conn) : Prop :=
  s.Unchecked xid c ∨ s.Working xid ∨ s.Replying xid c

/-- A job that has called the handler for a waiting call picks the connection
that the client waits on: it is its own, or the job's own is seen to be dead and
it is the latest; or a copy sent there is yet to be checked. -/
def Transport.PicksCurrent (s : Transport) : TransportAction → Prop
  | .job index (.choose _) => ∀ job, s.server.jobs[index]? = some job →
      ∀ c, s.Waits job.request.xid c →
        job.conn = c ∨
          ((s.channels job.conn).serverDead = true ∧
            s.server.conns job.request.cltNonce = some c) ∨
          s.Unchecked job.request.xid c
  | _ => True

structure Transport.Sound (s : Transport) : Prop where
  server : s.server.Sound
  threads : ∀ xid t, s.threads xid = some t →
    t.request.xid = xid ∧ t.request.cltNonce = s.client.cltNonce
  noticed : ∀ c, (s.channels c).clientDead = true ∨ (s.channels c).serverDead = true →
    (s.channels c).cut = true
  covered : ∀ xid c, s.Waits xid c → s.Covered xid c

theorem Transport.Sound.start (cltNonce nonce : UInt32) (procs : Nat → Bool) :
    (Transport.start cltNonce nonce procs).Sound where
  server := Rpcs.Sound.start nonce procs
  threads := fun _xid _t found => nomatch found
  noticed := fun _c seen => seen.elim (fun dead => nomatch dead) (fun dead => nomatch dead)
  covered := by
    rintro xid c ⟨_pending, ⟨_t, found, _ch⟩, _alive⟩
    cases found

theorem Transport.Covered.not_stranded {xid : Nat} {c : Conn} (covered : s.Covered xid c)
    (stranded : s.Stranded xid) : False := by
  obtain ⟨_waits, _handled, noCopy, finished, noReply⟩ := stranded
  have idle : ∀ {job : Job} {phase : Phase}, job ∈ s.server.jobs →
      job.For s.client.cltNonce xid → job.phase = phase → phase = .finished :=
    fun member own here => here.symm.trans (finished _ member own)
  rcases covered with (⟨request, sent, _own, same⟩ | ⟨job, member, own, _conn, phase⟩) |
    ⟨job, member, handled, phase⟩ | ⟨job, member, own, _conn, phase⟩ | ⟨reply, sent, same⟩
  · exact noCopy c request sent same
  · rcases phase with phase | phase <;> cases idle member own phase
  · rcases phase with phase | phase | phase <;> cases idle member handled.2 phase
  · cases idle member own phase
  · exact noReply c reply sent same

/-! ### Steps that leave the jobs alone -/

theorem Transport.Covered.mono {xid : Nat} {c : Conn} (covered : s.Covered xid c)
    (nonce : next.client.cltNonce = s.client.cltNonce) (server : next.server = s.server)
    (up : ∀ request ∈ (s.channels c).up, request ∈ (next.channels c).up)
    (down : ∀ reply ∈ (s.channels c).down, reply.xid = xid → reply ∈ (next.channels c).down) :
    next.Covered xid c := by
  unfold Transport.Covered Transport.Unchecked Transport.Working Transport.Replying
  rw [nonce, server]
  rcases covered with (⟨request, sent, same⟩ | queued) | working | sending | ⟨reply, sent, same⟩
  · exact Or.inl (Or.inl ⟨request, up request sent, same⟩)
  · exact Or.inl (Or.inr queued)
  · exact Or.inr (Or.inl working)
  · exact Or.inr (Or.inr (Or.inl sending))
  · exact Or.inr (Or.inr (Or.inr ⟨reply, down reply sent same, same⟩))

theorem Transport.Waits.mono {xid : Nat} {c : Conn} (waits : next.Waits xid c)
    (pending : next.Pending xid → s.Pending xid) (threads : next.threads xid = s.threads xid)
    (alive : (next.channels c).Alive → (s.channels c).Alive) : s.Waits xid c :=
  ⟨pending waits.pending, threads ▸ waits.transmitted, alive waits.alive⟩

theorem Transport.setChannel_of_ne {c other : Conn} {ch : Channel} (different : other ≠ c) :
    (s.setChannel c ch).channels other = s.channels other :=
  Function.update_of_ne different _ _

theorem Transport.setChannel_self {c : Conn} {ch : Channel} :
    (s.setChannel c ch).channels c = ch :=
  Function.update_self _ _ _

theorem Transport.Sound.noticed_setChannel (sound : s.Sound) {c : Conn} {ch : Channel}
    (own : ch.clientDead = true ∨ ch.serverDead = true → ch.cut = true) (other : Conn)
    (seen : ((s.setChannel c ch).channels other).clientDead = true ∨
      ((s.setChannel c ch).channels other).serverDead = true) :
    ((s.setChannel c ch).channels other).cut = true := by
  by_cases same : other = c
  · subst same
    rw [Transport.setChannel_self] at seen ⊢
    exact own seen
  · rw [Transport.setChannel_of_ne same] at seen ⊢
    exact sound.noticed other seen

theorem Transport.setChannel_carries {c : Conn} {ch : Channel}
    (carried : Channel → Channel → Prop) (same : ∀ ch, carried ch ch)
    (changed : carried (s.channels c) ch) (conn : Conn) :
    carried (s.channels conn) ((s.setChannel c ch).channels conn) := by
  by_cases here : conn = c
  · subst here
    rw [Transport.setChannel_self]
    exact changed
  · rw [Transport.setChannel_of_ne here]
    exact same _

theorem Transport.alive_setChannel {c : Conn} {ch : Channel}
    (changed : ch.Alive → (s.channels c).Alive) (conn : Conn) :
    ((s.setChannel c ch).channels conn).Alive → (s.channels conn).Alive :=
  Transport.setChannel_carries (fun before after => after.Alive → before.Alive)
    (fun _ch alive => alive) changed conn

theorem Transport.up_setChannel {c : Conn} {ch : Channel}
    (changed : ∀ request ∈ (s.channels c).up, request ∈ ch.up) (conn : Conn) :
    ∀ request ∈ (s.channels conn).up, request ∈ ((s.setChannel c ch).channels conn).up :=
  Transport.setChannel_carries (fun before after => ∀ request ∈ before.up, request ∈ after.up)
    (fun _ch _request sent => sent) changed conn

theorem Transport.down_setChannel {c : Conn} {ch : Channel} {xid : Nat}
    (changed : ∀ reply ∈ (s.channels c).down, reply.xid = xid → reply ∈ ch.down) (conn : Conn) :
    ∀ reply ∈ (s.channels conn).down, reply.xid = xid →
      reply ∈ ((s.setChannel c ch).channels conn).down :=
  Transport.setChannel_carries
    (fun before after => ∀ reply ∈ before.down, reply.xid = xid → reply ∈ after.down)
    (fun _ch _reply sent _same => sent) changed conn

theorem Channel.sendUp_flags (ch : Channel) (request : Request) :
    (ch.sendUp request).cut = ch.cut ∧ (ch.sendUp request).clientDead = ch.clientDead ∧
      (ch.sendUp request).serverDead = ch.serverDead ∧ (ch.sendUp request).down = ch.down ∧
      ∀ other ∈ ch.up, other ∈ (ch.sendUp request).up := by
  unfold Channel.sendUp
  split
  · exact ⟨rfl, rfl, rfl, rfl, fun _other member => member⟩
  · exact ⟨rfl, rfl, rfl, rfl, fun _other member => List.mem_append_left _ member⟩

theorem Channel.sendUp_alive {ch : Channel} {request : Request} (alive : (ch.sendUp request).Alive) :
    ch.Alive ∧ request ∈ (ch.sendUp request).up := by
  have ⟨cut, client, server, _down, _up⟩ := ch.sendUp_flags request
  have before : ch.Alive :=
    ⟨cut ▸ alive.cut, client ▸ alive.client, server ▸ alive.server⟩
  refine ⟨before, ?_⟩
  unfold Channel.sendUp
  rw [if_neg (by rw [before.cut, before.client]; decide)]
  exact List.mem_append_right _ (List.mem_singleton_self _)

theorem Channel.sendDown_flags (ch : Channel) (reply : Reply) :
    (ch.sendDown reply).cut = ch.cut ∧ (ch.sendDown reply).clientDead = ch.clientDead ∧
      (ch.sendDown reply).serverDead = ch.serverDead ∧ (ch.sendDown reply).up = ch.up ∧
      ∀ other ∈ ch.down, other ∈ (ch.sendDown reply).down := by
  unfold Channel.sendDown
  split
  · exact ⟨rfl, rfl, rfl, rfl, fun _other member => member⟩
  · exact ⟨rfl, rfl, rfl, rfl, fun _other member => List.mem_append_left _ member⟩

theorem Channel.sendDown_alive {ch : Channel} {reply : Reply} (alive : (ch.sendDown reply).Alive) :
    ch.Alive ∧ reply ∈ (ch.sendDown reply).down := by
  have ⟨cut, client, server, _up, _down⟩ := ch.sendDown_flags reply
  have before : ch.Alive :=
    ⟨cut ▸ alive.cut, client ▸ alive.client, server ▸ alive.server⟩
  refine ⟨before, ?_⟩
  unfold Channel.sendDown
  rw [if_neg (by rw [before.cut, before.server]; decide)]
  exact List.mem_append_right _ (List.mem_singleton_self _)

theorem Transport.Sound.call (sound : s.Sound) {proc : Nat} {args : List UInt8} {c : Rpcc}
    {request : Request} (called : s.client.call1 proc args = .ok (c, request)) :
    Transport.Sound { s with
      client := c
      threads := Function.update s.threads request.xid
        (some { request := request, ch := none }) } := by
  obtain ⟨_bind, _open, rfl, rfl⟩ := Rpcc.call1_ok called
  refine ⟨sound.server, ?_, sound.noticed, ?_⟩
  · intro xid t found
    change Function.update s.threads _ _ xid = some t at found
    by_cases same : xid = s.client.xid
    · subst same
      rw [Function.update_self] at found
      cases found
      exact ⟨rfl, rfl⟩
    · rw [Function.update_of_ne same] at found
      exact sound.threads xid t found
  · intro xid conn waits
    by_cases same : xid = s.client.xid
    · obtain ⟨t, found, ch⟩ := waits.transmitted
      change Function.update s.threads _ _ xid = some t at found
      rw [same, Function.update_self] at found
      cases found
      cases ch
    · have before : s.Waits xid conn := by
        refine waits.mono ?_ (Function.update_of_ne same _ _) (fun alive => alive)
        rintro ⟨ca, member, number, waiting⟩
        rcases Rpcc.mem_addCall member with rfl | inside
        · exact absurd number.symm same
        · exact ⟨ca, inside, number, waiting⟩
      exact (sound.covered xid conn before).mono rfl rfl (fun _r sent => sent)
        (fun _r sent _same => sent)

theorem Transport.getRefconn_some {connected : Option Conn}
    (got : s.getRefconn connected = some next) :
    next.client = s.client ∧ next.threads = s.threads ∧ next.server = s.server ∧
      next.channels = s.channels := by
  unfold Transport.getRefconn at got
  split at got
  · cases connected with
    | none =>
        cases got
        exact ⟨rfl, rfl, rfl, rfl⟩
    | some c =>
        dsimp only at got
        split at got
        · cases got
        · cases got
          exact ⟨rfl, rfl, rfl, rfl⟩
  · cases got
    exact ⟨rfl, rfl, rfl, rfl⟩

theorem Transport.Sound.refconn (sound : s.Sound) {connected : Option Conn}
    (got : s.getRefconn connected = some next) : next.Sound := by
  obtain ⟨client, threads, server, channels⟩ := Transport.getRefconn_some got
  refine ⟨server ▸ sound.server, ?_, ?_, ?_⟩
  · rw [threads, client]
    exact sound.threads
  · rw [channels]
    exact sound.noticed
  · intro xid c waits
    have before : s.Waits xid c := by
      refine waits.mono ?_ (by rw [threads]) (by rw [channels]; exact id)
      unfold Transport.Pending
      rw [client]
      exact id
    exact (sound.covered xid c before).mono (by rw [client]) server
      (by rw [channels]; exact fun _r sent => sent)
      (by rw [channels]; exact fun _r sent _same => sent)

/-- A transmission covers its own call, and leaves the others covered. -/
theorem Transport.Sound.send (sound : s.Sound) {xid : Nat} {t : Thread}
    (found : s.threads xid = some t) : (s.send xid t).Sound := by
  unfold Transport.send
  cases current : s.chan.or t.ch with
  | none => exact sound
  | some c =>
      have ⟨number, client⟩ := sound.threads xid t found
      have ⟨cut, clientDead, serverDead, down, up⟩ := (s.channels c).sendUp_flags t.request
      refine ⟨sound.server, ?_, ?_, ?_⟩
      · intro other t' found'
        change Function.update s.threads xid _ other = some t' at found'
        by_cases same : other = xid
        · subst same
          rw [Function.update_self] at found'
          cases found'
          exact ⟨number, client⟩
        · rw [Function.update_of_ne same] at found'
          exact sound.threads other t' found'
      · apply sound.noticed_setChannel
        rw [cut, clientDead, serverDead]
        exact sound.noticed c
      · intro other conn waits
        by_cases same : other = xid
        · subst same
          obtain ⟨t', found', ch⟩ := waits.transmitted
          change Function.update s.threads other _ other = some t' at found'
          rw [Function.update_self] at found'
          cases found'
          cases ch
          have alive := waits.alive
          change ((s.setChannel c _).channels c).Alive at alive
          rw [Transport.setChannel_self] at alive
          refine Or.inl (Or.inl ⟨t.request, ?_, client, number⟩)
          change t.request ∈ ((s.setChannel c _).channels c).up
          rw [Transport.setChannel_self]
          exact (Channel.sendUp_alive alive).2
        · have before : s.Waits other conn := by
            refine waits.mono id (Function.update_of_ne same _ _) ?_
            exact Transport.alive_setChannel (fun alive => (Channel.sendUp_alive alive).1) conn
          refine (sound.covered other conn before).mono rfl rfl ?_ ?_
          · exact Transport.up_setChannel up conn
          · apply Transport.down_setChannel
            rw [down]
            exact fun _reply sent _same => sent

theorem Transport.Sound.leave (sound : s.Sound) {xid : Nat} {c : Rpcc}
    {result : Int × List UInt8} (left : s.client.leave xid = some (c, result)) :
    Transport.Sound { s with
      client := c, threads := Function.update s.threads xid none } := by
  obtain ⟨_ca, _member, _xid, _result, rfl⟩ := Rpcc.leave_some left
  refine ⟨sound.server, ?_, sound.noticed, ?_⟩
  · intro other t found
    change Function.update s.threads xid none other = some t at found
    by_cases same : other = xid
    · rw [same, Function.update_self] at found
      cases found
    · rw [Function.update_of_ne same] at found
      exact sound.threads other t found
  · intro other conn waits
    have different : other ≠ xid := by
      rintro rfl
      obtain ⟨ca, member, number, _waiting⟩ := waits.pending
      exact (Rpcc.mem_eraseCall member).2 number
    have before : s.Waits other conn := by
      refine waits.mono ?_ (Function.update_of_ne different _ _) id
      rintro ⟨ca, member, number, waiting⟩
      exact ⟨ca, (Rpcc.mem_eraseCall member).1, number, waiting⟩
    exact (sound.covered other conn before).mono rfl rfl (fun _r sent => sent)
      (fun _r sent _same => sent)

theorem Transport.Sound.arrive (sound : s.Sound) {c : Conn} {request : Request}
    {rest : List Request} (up : (s.channels c).up = request :: rest) :
    Transport.Sound { s.setChannel c { s.channels c with up := rest } with
      server := { s.server with jobs := s.server.jobs ++ [Job.start c request] } } := by
  refine ⟨sound.server.gotPdu c request, sound.threads,
    sound.noticed_setChannel (sound.noticed c), ?_⟩
  intro xid conn waits
  have before : s.Waits xid conn := by
    refine waits.mono id rfl ?_
    change ((s.setChannel c _).channels conn).Alive → _
    apply Transport.alive_setChannel
    exact fun alive => ⟨alive.cut, alive.client, alive.server⟩
  rcases sound.covered xid conn before with (⟨r, sent, own, number⟩ |
    ⟨job, member, own⟩) | ⟨job, member, own⟩ | ⟨job, member, own⟩ | ⟨reply, sent, number⟩
  · refine Or.inl ?_
    by_cases here : conn = c
    · subst here
      rw [up] at sent
      rcases List.mem_cons.mp sent with rfl | later
      · exact Or.inr ⟨Job.start conn r, List.mem_append_right _ (List.mem_singleton_self _),
          ⟨own, number⟩, rfl, Or.inl rfl⟩
      · refine Or.inl ⟨r, ?_, own, number⟩
        change r ∈ ((s.setChannel conn _).channels conn).up
        rw [Transport.setChannel_self]
        exact later
    · refine Or.inl ⟨r, ?_, own, number⟩
      change r ∈ ((s.setChannel c _).channels conn).up
      rw [Transport.setChannel_of_ne here]
      exact sent
  · exact Or.inl (Or.inr ⟨job, List.mem_append_left _ member, own⟩)
  · exact Or.inr (Or.inl ⟨job, List.mem_append_left _ member, own⟩)
  · exact Or.inr (Or.inr (Or.inl ⟨job, List.mem_append_left _ member, own⟩))
  · have kept : ∀ other ∈ (s.channels c).down, other.xid = xid →
        other ∈ ({ s.channels c with up := rest } : Channel).down :=
      fun _other sent _same => sent
    have still := Transport.down_setChannel kept conn reply sent number
    exact Or.inr (Or.inr (Or.inr ⟨reply, still, number⟩))

theorem Transport.Sound.answer (sound : s.Sound) {c : Conn} {reply : Reply} {rest : List Reply}
    (down : (s.channels c).down = reply :: rest) :
    Transport.Sound { s.setChannel c { s.channels c with down := rest } with
      client := s.client.gotPdu reply } := by
  refine ⟨sound.server, sound.threads, sound.noticed_setChannel (sound.noticed c), ?_⟩
  intro xid conn waits
  obtain ⟨ca, member, number, waiting⟩ := waits.pending
  obtain ⟨earlier, inside, rfl⟩ := List.mem_map.mp member
  have ⟨waited, other⟩ := Caller.takeIn_waiting waiting
  rw [Caller.takeIn_xid] at number
  have before : s.Waits xid conn := by
    refine ⟨⟨earlier, inside, number, waited⟩, waits.transmitted, ?_⟩
    have alive := waits.alive
    change ((s.setChannel c _).channels conn).Alive at alive
    revert alive
    apply Transport.alive_setChannel
    exact fun alive => ⟨alive.cut, alive.client, alive.server⟩
  refine (sound.covered xid conn before).mono rfl rfl ?_ ?_
  · apply Transport.up_setChannel
    exact fun _request sent => sent
  · apply Transport.down_setChannel
    intro r sent same
    rw [down] at sent
    rcases List.mem_cons.mp sent with rfl | later
    · exact absurd (number.trans same.symm) other
    · exact later

theorem Transport.Sound.dies (sound : s.Sound) {c : Conn} {ch : Channel} (cut : ch.cut = true) :
    (s.setChannel c ch).Sound := by
  refine ⟨sound.server, sound.threads, sound.noticed_setChannel (fun _ => cut), ?_⟩
  intro xid conn waits
  have alive := waits.alive
  have here : conn ≠ c := by
    rintro rfl
    rw [Transport.setChannel_self] at alive
    exact Bool.noConfusion (cut.symm.trans alive.cut)
  rw [Transport.setChannel_of_ne here] at alive
  have before : s.Waits xid conn := ⟨waits.pending, waits.transmitted, alive⟩
  refine (sound.covered xid conn before).mono rfl rfl ?_ ?_
  · rw [Transport.setChannel_of_ne here]
    exact fun _r sent => sent
  · rw [Transport.setChannel_of_ne here]
    exact fun _r sent _same => sent

/-! ### Steps of a job -/

/-- A covered call stays covered by the jobs, unless the step sends its reply. -/
theorem Transport.Sound.acts (sound : s.Sound) {index : Nat} {job after : Job} {shared : Rpcs}
    {action : JobAction} (here : s.server.jobs[index]? = some job)
    (acts : s.server.Acts job action shared after) (sees : s.sees index action = true)
    (picks : s.PicksCurrent (.job index action)) {xid : Nat} {c : Conn} (waits : s.Waits xid c) :
    Transport.Covered { s with
        server := { shared with jobs := s.server.jobs.set index after } } xid c ∨
      action = .send ∧ job.conn = c ∧ ∃ reply, job.reply = some reply ∧ reply.xid = xid := by
  have own := sound.server.jobs job (List.mem_of_getElem? here)
  have jobMember := List.mem_of_getElem? here
  -- What else is to be checked stays so, when the acting job is past its check.
  have unchecked : (job.phase ≠ .queued ∧ job.phase ≠ .admitted) → s.Unchecked xid c →
      Transport.Unchecked { s with
        server := { shared with jobs := s.server.jobs.set index after } } xid c := by
    rintro ⟨notQueued, notAdmitted⟩ (sent | ⟨other, member, fits, conn, phase⟩)
    · exact Or.inl sent
    · rcases eq_or_mem_set here member with rfl | stays
      · exact absurd phase (not_or.mpr ⟨notQueued, notAdmitted⟩)
      · exact Or.inr ⟨other, stays, fits, conn, phase⟩
  rcases sound.covered xid c waits with (⟨r, sent, same⟩ | ⟨other, member, fits, conn, phase⟩) |
    ⟨other, member, handled, phase⟩ | ⟨other, member, fits, conn, phase⟩ | ⟨reply, sent, same⟩
  · exact Or.inl (Or.inl (Or.inl ⟨r, sent, same⟩))
  · rcases eq_or_mem_set here member with rfl | stays
    · refine Or.inl ?_
      cases acts with
      | oldServer queued old different =>
          exact Or.inr (Or.inr (Or.inl ⟨_, mem_set_self here, fits, conn, rfl⟩))
      | direct queued accepted anonymous =>
          exact Or.inr (Or.inl ⟨_, mem_set_self here, ⟨rfl, fits⟩, Or.inl rfl⟩)
      | prepare queued accepted named =>
          exact Or.inl (Or.inr ⟨_, mem_set_self here, fits, conn, Or.inr rfl⟩)
      | check admitted stat b rlist checked =>
          have unseen := (own.waiting (Or.inr admitted)).1
          cases checked with
          | done r entry same present =>
              exact Or.inr (Or.inr (Or.inl ⟨_, mem_set_self here, fits, conn, rfl⟩))
          | forgotten front unknown first below =>
              exact Or.inr (Or.inr (Or.inl ⟨_, mem_set_self here, fits, conn, rfl⟩))
          | new unknown inside =>
              exact Or.inr (Or.inl ⟨_, mem_set_self here, ⟨rfl, fits⟩, Or.inl rfl⟩)
          | inProgress r entry same absent =>
              -- The copy is dropped; the job that it found is still at work.
              obtain ⟨_named, worker, inside, backs⟩ := sound.server.entries _ r entry
              rcases eq_or_mem_set here inside with rfl | stays
              · exact nomatch unseen.symm.trans backs.handled.1
              · have fitting : worker.Handled s.client.cltNonce xid :=
                  ⟨backs.handled.1, backs.handled.2.1.trans fits.1,
                    backs.handled.2.2.trans (same.trans fits.2)⟩
                exact Or.inr (Or.inl ⟨worker, stays, fitting,
                  (backs.absent absent).imp_right Or.inl⟩)
      | handle there _ _ _ _ | record there | keep there _ _ | reroute there _ _ | send there =>
          rcases phase with phase | phase <;> cases phase.symm.trans there
    · exact Or.inl (Or.inl (Or.inr ⟨other, stays, fits, conn, phase⟩))
  · rcases eq_or_mem_set here member with rfl | stays
    · have waiting : s.Waits other.request.xid c := handled.2.2.symm ▸ waits
      cases acts with
      | handle running ret body valid bind =>
          refine Or.inl (Or.inr (Or.inl ⟨_, mem_set_self here, handled, ?_⟩))
          by_cases anonymous : other.request.cltNonce = 0
          · exact Or.inr (Or.inr (if_pos anonymous))
          · exact Or.inr (Or.inl (if_neg anonymous))
      | record returned =>
          exact Or.inl (Or.inr (Or.inl ⟨_, mem_set_self here, handled, Or.inr (Or.inr rfl)⟩))
      | keep recorded isdead good =>
          have past : other.phase ≠ .queued ∧ other.phase ≠ .admitted := by
            rw [recorded]
            exact ⟨Phase.noConfusion, Phase.noConfusion⟩
          unfold Transport.sees at sees
          rw [here] at sees
          have saw : (s.channels other.conn).serverDead = isdead := eq_of_beq sees
          rcases picks other here c waiting with conn | ⟨dead, latest⟩ | copy
          · exact Or.inl (Or.inr (Or.inr (Or.inl
              ⟨_, mem_set_self here, handled.2, conn, rfl⟩)))
          · have known := good (saw.symm.trans dead)
            cases known.symm.trans latest
            exact Or.inl (Or.inr (Or.inr (Or.inl
              ⟨_, mem_set_self here, handled.2, rfl, rfl⟩)))
          · rw [handled.2.2] at copy
            exact Or.inl (Or.inl (unchecked past copy))
      | reroute recorded c' known =>
          have past : other.phase ≠ .queued ∧ other.phase ≠ .admitted := by
            rw [recorded]
            exact ⟨Phase.noConfusion, Phase.noConfusion⟩
          unfold Transport.sees at sees
          rw [here] at sees
          have saw : (s.channels other.conn).serverDead = true := eq_of_beq sees
          rcases picks other here c waiting with conn | ⟨_dead, latest⟩ | copy
          · rw [conn, waits.alive.server] at saw
            cases saw
          · cases known.symm.trans latest
            exact Or.inl (Or.inr (Or.inr (Or.inl
              ⟨_, mem_set_self here, handled.2, rfl, rfl⟩)))
          · rw [handled.2.2] at copy
            exact Or.inl (Or.inl (unchecked past copy))
      | oldServer there _ _ | direct there _ _ | prepare there _ _ | check there _ _ _ _
      | send there => rcases phase with phase | phase | phase <;> cases phase.symm.trans there
    · exact Or.inl (Or.inr (Or.inl ⟨other, stays, handled, phase⟩))
  · rcases eq_or_mem_set here member with rfl | stays
    · cases acts with
      | send sending =>
          obtain ⟨reply, replied⟩ :=
            Option.ne_none_iff_exists'.mp (own.replying (Or.inr (Or.inr sending)))
          have number := (sound.server.reply jobMember replied).1
          exact Or.inr ⟨rfl, conn, reply, replied, number.trans fits.2⟩
      | oldServer there _ _ | direct there _ _ | prepare there _ _ | check there _ _ _ _
      | handle there _ _ _ _ | record there | keep there _ _ | reroute there _ _ =>
          cases phase.symm.trans there
    · exact Or.inl (Or.inr (Or.inr (Or.inl ⟨other, stays, fits, conn, phase⟩)))
  · exact Or.inl (Or.inr (Or.inr (Or.inr ⟨reply, sent, same⟩)))

theorem Transport.Sound.job (sound : s.Sound) {index : Nat} {action : JobAction}
    (picks : s.PicksCurrent (.job index action))
    (taken : s.step (.job index action) = some next) : next.Sound := by
  obtain ⟨sees, ran⟩ := Option.ite_none_right_eq_some.mp taken
  obtain ⟨server, acted, rfl⟩ := Option.map_eq_some_iff.mp ran
  have after := sound.server.step acted
  obtain ⟨job, shared, later, here, acts, rfl⟩ := Rpcs.step_job acted
  cases sends : s.server.sends (.job index action) with
  | none =>
      refine ⟨after, sound.threads, sound.noticed, ?_⟩
      intro xid conn waits
      have before : s.Waits xid conn := ⟨waits.pending, waits.transmitted, waits.alive⟩
      rcases sound.acts here acts sees picks before with
        covered | ⟨rfl, _conn, reply, replied, _same⟩
      · exact covered
      · cases sends.symm.trans (Rpcs.sends_send here replied)
  | some sent =>
      obtain ⟨c, reply⟩ := sent
      have ⟨cut, clientDead, serverDead, up, down⟩ := (s.channels c).sendDown_flags reply
      obtain ⟨_index, sender, there, same, rfl, replied⟩ :=
        Rpcs.sends_some (Option.mem_toList.mpr sends)
      cases same
      cases here.symm.trans there
      refine ⟨after, sound.threads, ?_, ?_⟩
      · apply sound.noticed_setChannel
        rw [cut, clientDead, serverDead]
        exact sound.noticed job.conn
      · intro xid conn waits
        have alive := waits.alive
        change ((s.setChannel job.conn _).channels conn).Alive at alive
        have before : s.Waits xid conn := by
          refine ⟨waits.pending, waits.transmitted, ?_⟩
          exact Transport.alive_setChannel
            (fun alive => (Channel.sendDown_alive alive).1) conn alive
        rcases sound.acts here acts sees picks before with
          covered | ⟨_send, rfl, other, given, number⟩
        · refine covered.mono rfl rfl ?_ ?_
          · apply Transport.up_setChannel
            rw [up]
            exact fun _request sent => sent
          · exact Transport.down_setChannel (fun r sent _same => down r sent) conn
        · cases replied.symm.trans given
          rw [Transport.setChannel_self] at alive
          refine Or.inr (Or.inr (Or.inr ⟨reply, ?_, number⟩))
          change reply ∈ ((s.setChannel job.conn _).channels job.conn).down
          rw [Transport.setChannel_self]
          exact (Channel.sendDown_alive alive).2

theorem Transport.Sound.step (sound : s.Sound) {action : TransportAction}
    (picks : s.PicksCurrent action) (taken : s.step action = some next) : next.Sound := by
  cases action with
  | call proc args =>
      dsimp only [Transport.step] at taken
      cases called : s.client.call1 proc args with
      | error failure =>
          rw [called] at taken
          cases taken
          exact sound
      | ok result =>
          rw [called] at taken
          cases taken
          exact sound.call called
  | transmit xid connected =>
      obtain ⟨t, found, ran⟩ := Option.bind_eq_some_iff.mp taken
      obtain ⟨_unusable, got⟩ := Option.ite_none_right_eq_some.mp ran
      obtain ⟨middle, refconn, rfl⟩ := Option.map_eq_some_iff.mp got
      apply (sound.refconn refconn).send
      rw [(Transport.getRefconn_some refconn).2.1]
      exact found
  | leave xid =>
      obtain ⟨⟨c, result⟩, left, rfl⟩ := Option.map_eq_some_iff.mp taken
      exact sound.leave left
  | bound nonce =>
      cases taken
      refine ⟨sound.server, sound.threads, sound.noticed, ?_⟩
      intro xid c waits
      have before : s.Waits xid c := ⟨waits.pending, waits.transmitted, waits.alive⟩
      exact (sound.covered xid c before).mono rfl rfl (fun _r sent => sent)
        (fun _r sent _same => sent)
  | arrive c =>
      dsimp only [Transport.step] at taken
      split at taken
      · cases taken
      · cases up : (s.channels c).up with
        | nil =>
            rw [up] at taken
            cases taken
        | cons request rest =>
            rw [up] at taken
            cases taken
            exact sound.arrive up
  | answer c =>
      dsimp only [Transport.step] at taken
      split at taken
      · cases taken
      · cases down : (s.channels c).down with
        | nil =>
            rw [down] at taken
            cases taken
        | cons reply rest =>
            rw [down] at taken
            cases taken
            exact sound.answer down
  | cut c =>
      cases taken
      exact sound.dies rfl
  | clientNotices c =>
      obtain ⟨cut, same⟩ := Option.ite_none_right_eq_some.mp taken
      cases same
      exact sound.dies cut
  | serverNotices c =>
      obtain ⟨cut, same⟩ := Option.ite_none_right_eq_some.mp taken
      cases same
      exact sound.dies cut
  | job index action => exact sound.job picks taken

/-! ### Runs -/

/-- In every run in which each job that has called the handler picks the
connection its client waits on, no call is ever stranded. -/
theorem no_call_stranded {cltNonce nonce : UInt32} {procs : Nat → Bool}
    {actions : List TransportAction}
    (picks : Guarded Transport.step Transport.PicksCurrent
      (.start cltNonce nonce procs) actions)
    (ran : run Transport.step (.start cltNonce nonce procs) actions = some s) (xid : Nat) :
    ¬ s.Stranded xid := by
  have sound := Guarded.invariant
    (fun (s : Transport) _action _next (sound : s.Sound) picks taken => sound.step picks taken)
    picks (Transport.Sound.start cltNonce nonce procs) ran
  intro stranded
  obtain ⟨c, waits⟩ := stranded.1
  exact (sound.covered xid c waits).not_stranded stranded

def firstConn : Conn := { owner := 5, id := 1, createTime := 1 }
def secondConn : Conn := { owner := 5, id := 2, createTime := 2 }

def reconnectActions : List TransportAction :=
  [.call RpcConst.bind [0, 0, 0, 0], .transmit 1 (some firstConn), .arrive firstConn,
    .job 0 .prepare, .job 0 .check, .cut firstConn, .clientNotices firstConn,
    .transmit 1 (some secondConn), .arrive secondConn, .job 1 .prepare, .job 1 .check,
    .job 0 (.handle 0 (bytes32 9)), .job 0 .record]

def noticedActions : List TransportAction :=
  reconnectActions ++ [.serverNotices firstConn, .job 0 (.choose true), .job 0 .send]

def strandedActions : List TransportAction :=
  reconnectActions ++ [.job 0 (.choose false), .job 0 .send]

instance (ch : Channel) : Decidable ch.Alive :=
  decidable_of_iff (ch.cut = false ∧ ch.clientDead = false ∧ ch.serverDead = false)
    ⟨fun ⟨cut, client, server⟩ => ⟨cut, client, server⟩,
      fun alive => ⟨alive.cut, alive.client, alive.server⟩⟩

instance (s : Transport) (xid : Nat) : Decidable (s.Pending xid) := by
  unfold Transport.Pending
  infer_instance

instance (s : Transport) (xid : Nat) (c : Conn) : Decidable (s.Waits xid c) :=
  decidable_of_iff
    (s.Pending xid ∧ (s.threads xid).bind Thread.ch = some c ∧ (s.channels c).Alive)
    ⟨fun ⟨pending, transmitted, alive⟩ =>
        ⟨pending, Option.bind_eq_some_iff.mp transmitted, alive⟩,
      fun waits => ⟨waits.pending, Option.bind_eq_some_iff.mpr waits.transmitted, waits.alive⟩⟩

instance (job : Job) (n : UInt32) (xid : Nat) : Decidable (job.For n xid) := by
  unfold Job.For
  infer_instance

instance (s : Transport) (xid : Nat) (c : Conn) : Decidable (s.Unchecked xid c) := by
  unfold Transport.Unchecked
  infer_instance

instance (s : Transport) (action : TransportAction) : Decidable (s.PicksCurrent action) :=
  match action with
  | .job index (.choose _) =>
      match here : s.server.jobs[index]? with
      | none => isTrue fun _job there => nomatch here.symm.trans there
      | some job =>
          decidable_of_iff
            (∀ c ∈ (s.threads job.request.xid).bind Thread.ch, s.Waits job.request.xid c →
              job.conn = c ∨
                ((s.channels job.conn).serverDead = true ∧
                  s.server.conns job.request.cltNonce = some c) ∨
                s.Unchecked job.request.xid c)
            ⟨fun met _job there c waits => by
                cases here.symm.trans there
                exact met c (Option.bind_eq_some_iff.mpr waits.transmitted) waits,
              fun met c _transmitted waits => met job here c waits⟩
  | .call _ _ | .transmit _ _ | .leave _ | .bound _ | .arrive _ | .answer _ | .cut _
  | .clientNotices _ | .serverNotices _ | .job _ .prepare | .job _ .check | .job _ (.handle _ _)
  | .job _ .record | .job _ .send => isTrue trivial

theorem no_call_stranded_noticed : ∃ s,
    run Transport.step (.start 5 9 (fun _ => false)) noticedActions = some s ∧
      s.Waits 1 secondConn ∧ ¬ s.Stranded 1 :=
  ⟨_, rfl, by decide,
    @no_call_stranded _ 5 9 (fun _ => false) noticedActions (by decide) rfl 1⟩

def strandedChannels : Conn → Channel :=
  let dead : Channel := { Channel.fresh with cut := true, clientDead := true }
  Function.update (Function.update (Function.update (Function.update
    (Function.update (Function.update (Function.update (fun _ => Channel.fresh)
      firstConn { Channel.fresh with up := [bindRequest] })
      firstConn Channel.fresh)
      firstConn { Channel.fresh with cut := true })
      firstConn dead)
      secondConn { Channel.fresh with up := [bindRequest] })
      secondConn Channel.fresh)
      firstConn dead

theorem strandedChannels_empty (c : Conn) :
    (strandedChannels c).up = [] ∧ (strandedChannels c).down = [] := by
  unfold strandedChannels
  simp only [Function.update_idem]
  by_cases first : c = firstConn
  · rw [first, Function.update_self]
    exact ⟨rfl, rfl⟩
  · rw [Function.update_of_ne first]
    by_cases second : c = secondConn
    · rw [second, Function.update_self]
      exact ⟨rfl, rfl⟩
    · rw [Function.update_of_ne second, Function.update_of_ne first]
      exact ⟨rfl, rfl⟩

theorem call_stranded : ∃ s,
    run Transport.step (.start 5 9 (fun _ => false)) strandedActions = some s ∧
      s.Stranded 1 := by
  refine ⟨_, rfl, ⟨secondConn, by decide⟩, ⟨_, List.mem_cons_self, ⟨rfl, rfl, rfl⟩, by decide⟩,
    ?_, by decide, ?_⟩
  · intro c request sent
    change request ∈ (strandedChannels c).up at sent
    rw [(strandedChannels_empty c).1] at sent
    cases sent
  · intro c reply sent
    change reply ∈ (strandedChannels c).down at sent
    rw [(strandedChannels_empty c).2] at sent
    cases sent

end CseLab.Rpc
