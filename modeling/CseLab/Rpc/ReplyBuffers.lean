import CseLab.Rpc.AtMostOnce

/-! The buffers of the replies that a server remembers: where the window has
them, and which were freed. A buffer is named by the job that marshalled it. -/

namespace CseLab.Rpc

open OrderedWindow Slots Transition

/-- Where `buf` points in the entry that a client has for an xid. -/
abbrev Bufs := UInt32 → Nat → Option Nat

/-- `added` are the buffers passed to `add_reply`, `freed` those passed to `free`. -/
structure BufferServer where
  server : Rpcs
  buf : Bufs
  added : List Nat
  freed : List Nat

namespace BufferServer

def start (nonce : UInt32) (procs : Nat → Bool) : BufferServer :=
  { server := .start nonce procs, buf := fun _ _ => none, added := [], freed := [] }

def setBuf (buf : Bufs) (request : Request) (b : Option Nat) : Bufs :=
  Function.update buf request.cltNonce
    (Function.update (buf request.cltNonce) request.xid b)

/-- After `checkduplicate_and_update` on a new request: its entry has no buffer, and
nothing is freed for the entries that it erases. -/
def newEntry (s : BufferServer) (server : Rpcs) (request : Request) : BufferServer :=
  { s with server := server, buf := setBuf s.buf request none }

def storeReply (s : BufferServer) (server : Rpcs) (request : Request) (index : Nat) :
    BufferServer :=
  { s with
    server := server
    buf := setBuf s.buf request (some index)
    added := index :: s.added }

def jobStep (s : BufferServer) (next : Rpcs) (index : Nat) (after : Job) :
    JobAction → BufferServer
  | .check =>
      if after.stat = some .new then s.newEntry next after.request else { s with server := next }
  | .record => s.storeReply next after.request index
  | .prepare | .handle _ _ | .choose _ | .send => { s with server := next }

def remaining (s : BufferServer) : List Nat :=
  (s.server.jobs.map (fun job => job.request.cltNonce)).dedup.flatMap (fun n =>
    (s.server.replyWindow n).filterMap (fun r => s.buf n r.xid))

def freeReplyWindow (s : BufferServer) : BufferServer :=
  { s with
    server := { s.server with replyWindow := fun _ => [] }
    freed := s.remaining ++ s.freed }

end BufferServer

inductive BufferAction where
  | gotPdu (c : Conn) (request : Request)
  | job (index : Nat) (action : JobAction)
  | freeReplyWindow

namespace BufferServer

def step (s : BufferServer) : BufferAction → Option BufferServer
  | .gotPdu c request =>
      (s.server.step (.gotPdu c request)).map fun server => { s with server := server }
  | .job index action =>
      (s.server.jobs[index]?).bind fun job =>
        (s.server.act job action).map fun (next, after) =>
          s.jobStep { next with jobs := s.server.jobs.set index after } index after action
  | .freeReplyWindow => some s.freeReplyWindow

def HeldBy (s : BufferServer) (b : Nat) (n : UInt32) (r : ReplyT) : Prop :=
  r ∈ s.server.replyWindow n ∧ r.cbPresent = true ∧ s.buf n r.xid = some b

/-- Each buffer is held by one entry and not freed, or by none and freed once. -/
def Accounted (s : BufferServer) : Prop :=
  ∀ b ∈ s.added, ((∃! e : UInt32 × ReplyT, s.HeldBy b e.1 e.2) ∧ b ∉ s.freed) ∨
    ((∀ n r, ¬s.HeldBy b n r) ∧ s.freed.count b = 1)

end BufferServer

/-- The request is taken for a new one: its xid is not in the window and not below it. -/
def Fresh (rlist : List ReplyT) (xid : Nat) : Prop :=
  (∀ r ∈ rlist, r.xid ≠ xid) ∧ ∀ front, rlist.head? = some front → front.xid ≤ xid

/-- No answered entry is erased, and `add_reply` finds an entry that has no reply yet. -/
def BufferServer.Keeps (s : BufferServer) : BufferAction → Prop
  | .job index .check => ∀ job, s.server.jobs[index]? = some job →
      Fresh (s.server.replyWindow job.request.cltNonce) job.request.xid →
      ∀ r ∈ s.server.replyWindow job.request.cltNonce, r.xid < job.request.xidRep →
        r.cbPresent = false
  | .job index .record => ∀ job, s.server.jobs[index]? = some job →
      ∃ r ∈ s.server.replyWindow job.request.cltNonce,
        r.xid = job.request.xid ∧ r.cbPresent = false
  | _ => True

/-! ### Steps -/

namespace BufferServer

variable {s next : BufferServer}

theorem setBuf_self (buf : Bufs) (request : Request) (b : Option Nat) :
    setBuf buf request b request.cltNonce request.xid = b := by
  rw [setBuf, Function.update_self, Function.update_self]

theorem setBuf_other (buf : Bufs) (request : Request) (b : Option Nat) {n : UInt32} {x : Nat}
    (other : ¬(n = request.cltNonce ∧ x = request.xid)) :
    setBuf buf request b n x = buf n x := by
  unfold setBuf
  by_cases client : n = request.cltNonce
  · subst client
    rw [Function.update_self, Function.update_of_ne (fun same => other ⟨rfl, same⟩)]
  · rw [Function.update_of_ne client]

theorem jobStep_server (s : BufferServer) (next : Rpcs) (index : Nat) (after : Job)
    (action : JobAction) : (s.jobStep next index after action).server = next := by
  cases action with
  | check =>
      rw [jobStep]
      split
      · rfl
      · rfl
  | record | prepare | handle _ _ | choose _ | send => rfl

inductive Moves (s : BufferServer) : BufferAction → BufferServer → Prop
  | quiet {action : BufferAction} (server : Rpcs)
      (window : server.replyWindow = s.server.replyWindow) (keeps : s.Keeps action) :
      Moves s action { s with server := server }
  | insert {index : Nat} {job : Job} (here : s.server.jobs[index]? = some job)
      (fresh : Fresh (s.server.replyWindow job.request.cltNonce) job.request.xid) (server : Rpcs)
      (window : server.replyWindow = Function.update s.server.replyWindow job.request.cltNonce
        (inserted (s.server.replyWindow job.request.cltNonce) job.request)) :
      Moves s (.job index .check) (s.newEntry server job.request)
  | record {index : Nat} {job : Job} (here : s.server.jobs[index]? = some job)
      (returned : job.phase = .returned) (server : Rpcs)
      (window : server.replyWindow = Function.update s.server.replyWindow job.request.cltNonce
        (addReply (s.server.replyWindow job.request.cltNonce) job.request.xid job.reply))
      (jobs : server.jobs = s.server.jobs.set index { job with phase := .recorded }) :
      Moves s (.job index .record) (s.storeReply server job.request index)
  | free : Moves s .freeReplyWindow s.freeReplyWindow

theorem keeps_of_not_fresh {index : Nat} {job : Job} (here : s.server.jobs[index]? = some job)
    (known : ¬Fresh (s.server.replyWindow job.request.cltNonce) job.request.xid) :
    s.Keeps (.job index .check) := by
  intro other there fresh
  cases here.symm.trans there
  exact absurd fresh known

theorem step_moves {action : BufferAction} (taken : s.step action = some next) :
    s.Moves action next := by
  cases action with
  | gotPdu c request =>
      cases taken
      exact .quiet _ rfl trivial
  | freeReplyWindow =>
      cases taken
      exact .free
  | job index action =>
      obtain ⟨job, here, rest⟩ := Option.bind_eq_some_iff.mp taken
      obtain ⟨⟨shared, after⟩, acted, same⟩ := Option.map_eq_some_iff.mp rest
      cases same
      cases Rpcs.act_cases acted with
      | oldServer _ _ _ => exact .quiet _ rfl trivial
      | direct _ _ _ => exact .quiet _ rfl trivial
      | prepare _ _ _ => exact .quiet _ rfl trivial
      | handle _ _ _ _ _ => exact .quiet _ rfl trivial
      | keep _ _ _ => exact .quiet _ rfl trivial
      | reroute _ _ _ => exact .quiet _ rfl trivial
      | send _ => exact .quiet _ rfl trivial
      | record returned => exact .record here returned _ rfl rfl
      | check admitted stat b rlist checked =>
          cases checked with
          | new unknown inside => exact .insert here ⟨unknown, inside⟩ _ rfl
          | done r member same present =>
              refine .quiet _ (Function.update_eq_self _ _) (keeps_of_not_fresh here ?_)
              exact fun fresh => fresh.1 r member same
          | inProgress r member same absent =>
              refine .quiet _ (Function.update_eq_self _ _) (keeps_of_not_fresh here ?_)
              exact fun fresh => fresh.1 r member same
          | forgotten front unknown first below =>
              refine .quiet _ (Function.update_eq_self _ _) (keeps_of_not_fresh here ?_)
              exact fun fresh => Nat.not_le_of_lt below (fresh.2 front first)

/-! ### Who holds a buffer -/

def PastReply (job : Job) : Prop :=
  job.phase = .recorded ∨ job.phase = .sending ∨ job.phase = .finished

structure Tracked (s : BufferServer) : Prop where
  sound : s.server.Sound
  ordered : ∀ n, Ordered (s.server.replyWindow n)
  absent : ∀ n, ∀ r ∈ s.server.replyWindow n, r.cbPresent = false → s.buf n r.xid = none
  present : ∀ n, ∀ r ∈ s.server.replyWindow n, r.cbPresent = true →
    ∃ b ∈ s.added, s.buf n r.xid = some b
  distinct : ∀ b n r m q, s.HeldBy b n r → s.HeldBy b m q → n = m ∧ r.xid = q.xid
  past : ∀ b ∈ s.added, ∃ job, s.server.jobs[b]? = some job ∧ PastReply job
  freed : ∀ b ∈ s.freed, b ∈ s.added
  unfreed : ∀ b n r, s.HeldBy b n r → b ∉ s.freed

theorem Tracked.start (nonce : UInt32) (procs : Nat → Bool) :
    (BufferServer.start nonce procs).Tracked where
  sound := .start nonce procs
  ordered := fun _n => List.Pairwise.nil
  absent := fun _n _r member => absurd member List.not_mem_nil
  present := fun _n _r member => absurd member List.not_mem_nil
  distinct := fun _b _n _r _m _q held => absurd held.1 List.not_mem_nil
  past := fun _b member => absurd member List.not_mem_nil
  freed := fun _b member => absurd member List.not_mem_nil
  unfreed := fun _b _n _r held => absurd held.1 List.not_mem_nil

theorem Tracked.eq_of_xid (tracked : s.Tracked) {n : UInt32} {r q : ReplyT}
    (left : r ∈ s.server.replyWindow n) (right : q ∈ s.server.replyWindow n)
    (same : r.xid = q.xid) : r = q := by
  have xids : ((s.server.replyWindow n).map ReplyT.xid).Nodup :=
    (List.pairwise_map.mpr (tracked.ordered n)).imp Nat.ne_of_lt
  exact List.inj_on_of_nodup_map xids left right same

theorem Tracked.mem_added (tracked : s.Tracked) {b : Nat} {n : UInt32} {r : ReplyT}
    (held : s.HeldBy b n r) : b ∈ s.added := by
  rcases tracked.present n r held.1 held.2.1 with ⟨c, added, points⟩
  cases points.symm.trans held.2.2
  exact added

section Insert

variable {job : Job} {server : Rpcs}

theorem Tracked.mem_insert (tracked : s.Tracked)
    (window : server.replyWindow = Function.update s.server.replyWindow job.request.cltNonce
      (inserted (s.server.replyWindow job.request.cltNonce) job.request))
    {n : UInt32} {r : ReplyT} :
    r ∈ server.replyWindow n ↔
      ((n = job.request.cltNonce ∧ r = ReplyT.start job.request.xid) ∨
          r ∈ s.server.replyWindow n) ∧
        (n = job.request.cltNonce → job.request.xidRep ≤ r.xid) := by
  rw [window]
  by_cases own : n = job.request.cltNonce
  · subst own
    rw [Function.update_self, inserted, mem_inserted (tracked.ordered _)]
    simp
  · rw [Function.update_of_ne own]
    simp [own]

theorem setBuf_fresh {request : Request}
    (fresh : Fresh (s.server.replyWindow request.cltNonce) request.xid) {n : UInt32} {r : ReplyT}
    (before : r ∈ s.server.replyWindow n) :
    setBuf s.buf request none n r.xid = s.buf n r.xid := by
  apply setBuf_other
  rintro ⟨rfl, same⟩
  exact fresh.1 r before same

theorem Tracked.heldBy_insert (tracked : s.Tracked)
    (fresh : Fresh (s.server.replyWindow job.request.cltNonce) job.request.xid)
    (window : server.replyWindow = Function.update s.server.replyWindow job.request.cltNonce
      (inserted (s.server.replyWindow job.request.cltNonce) job.request))
    (b : Nat) (n : UInt32) (r : ReplyT) :
    (s.newEntry server job.request).HeldBy b n r ↔
      s.HeldBy b n r ∧ (n = job.request.cltNonce → job.request.xidRep ≤ r.xid) := by
  constructor
  · rintro ⟨member, answered, points⟩
    rcases (tracked.mem_insert window).mp member with ⟨⟨-, rfl⟩ | before, reaches⟩
    · cases answered
    · have pointer := setBuf_fresh fresh before
      exact ⟨⟨before, answered, pointer.symm.trans points⟩, reaches⟩
  · rintro ⟨⟨before, answered, points⟩, reaches⟩
    have pointer := setBuf_fresh fresh before
    exact ⟨(tracked.mem_insert window).mpr ⟨.inr before, reaches⟩, answered, pointer.trans points⟩

theorem Tracked.accounted_iff (tracked : s.Tracked) :
    s.Accounted ↔ ∀ b ∈ s.added, (∃ n r, s.HeldBy b n r) ∨ s.freed.count b = 1 := by
  apply forall₂_congr
  intro b _member
  constructor
  · rintro (⟨⟨⟨n, r⟩, held, -⟩, -⟩ | ⟨-, once⟩)
    · exact .inl ⟨n, r, held⟩
    · exact .inr once
  · rintro (⟨n, r, held⟩ | once)
    · left
      refine ⟨⟨⟨n, r⟩, held, ?_⟩, tracked.unfreed b n r held⟩
      rintro ⟨m, q⟩ other
      rcases tracked.distinct b m q n r other held with ⟨rfl, same⟩
      have entry := tracked.eq_of_xid other.1 held.1 same
      exact congrArg (Prod.mk m) entry
    · right
      refine ⟨fun n r held => ?_, once⟩
      have freed : b ∈ s.freed := List.count_pos_iff.mp (by omega)
      exact tracked.unfreed b n r held freed

/-- A new request keeps the accounts if and only if it retires no answered entry. -/
theorem Tracked.insert_iff (tracked : s.Tracked) (accounted : s.Accounted)
    (fresh : Fresh (s.server.replyWindow job.request.cltNonce) job.request.xid)
    (window : server.replyWindow = Function.update s.server.replyWindow job.request.cltNonce
      (inserted (s.server.replyWindow job.request.cltNonce) job.request)) :
    (∀ b ∈ s.added,
      (∃ n r, (s.newEntry server job.request).HeldBy b n r) ∨ s.freed.count b = 1) ↔
      ∀ r ∈ s.server.replyWindow job.request.cltNonce, r.xid < job.request.xidRep →
        r.cbPresent = false := by
  have held := tracked.heldBy_insert fresh window
  constructor
  · intro every r member retired
    by_contra answered
    rw [Bool.not_eq_false] at answered
    rcases tracked.present _ r member answered with ⟨b, added, points⟩
    have before : s.HeldBy b job.request.cltNonce r := ⟨member, answered, points⟩
    rcases every b added with ⟨n, q, after⟩ | once
    · rcases (held b n q).mp after with ⟨still, reaches⟩
      rcases tracked.distinct b n q _ r still before with ⟨own, same⟩
      have reached := reaches own
      omega
    · exact tracked.unfreed b _ r before (List.count_pos_iff.mp (by omega))
  · intro kept b added
    rcases tracked.accounted_iff.mp accounted b added with ⟨n, r, before⟩ | once
    · left
      refine ⟨n, r, (held b n r).mpr ⟨before, ?_⟩⟩
      rintro rfl
      by_contra retired
      have unanswered := kept r before.1 (Nat.lt_of_not_le retired)
      exact Bool.false_ne_true (unanswered.symm.trans before.2.1)
    · exact .inr once

end Insert

section Record

variable {job : Job} {server : Rpcs} {index : Nat}

theorem Tracked.not_added (tracked : s.Tracked) (here : s.server.jobs[index]? = some job)
    (returned : job.phase = .returned) : index ∉ s.added := by
  intro added
  rcases tracked.past index added with ⟨other, there, past⟩
  cases here.symm.trans there
  rcases past with phase | phase | phase <;> cases returned.symm.trans phase

theorem mem_record_other
    (window : server.replyWindow = Function.update s.server.replyWindow job.request.cltNonce
      (addReply (s.server.replyWindow job.request.cltNonce) job.request.xid job.reply))
    {n : UInt32} {r : ReplyT} (other : ¬(n = job.request.cltNonce ∧ r.xid = job.request.xid)) :
    r ∈ server.replyWindow n ↔ r ∈ s.server.replyWindow n := by
  rw [window]
  by_cases own : n = job.request.cltNonce
  · subst own
    rw [Function.update_self]
    have differs : r.xid ≠ job.request.xid := fun same => other ⟨rfl, same⟩
    constructor
    · intro inside
      rcases mem_addReply inside with ⟨same, -, -⟩ | ⟨before, -⟩
      · exact absurd same differs
      · exact before
    · exact fun before => List.mem_map.mpr ⟨r, before, if_neg differs⟩
  · rw [Function.update_of_ne own]

theorem cbPresent_record
    (window : server.replyWindow = Function.update s.server.replyWindow job.request.cltNonce
      (addReply (s.server.replyWindow job.request.cltNonce) job.request.xid job.reply))
    {r : ReplyT} (member : r ∈ server.replyWindow job.request.cltNonce)
    (same : r.xid = job.request.xid) : r.cbPresent = true := by
  rw [window, Function.update_self] at member
  rcases mem_addReply member with ⟨-, answered, -⟩ | ⟨-, other⟩
  · exact answered
  · exact absurd same other

theorem heldBy_record
    (window : server.replyWindow = Function.update s.server.replyWindow job.request.cltNonce
      (addReply (s.server.replyWindow job.request.cltNonce) job.request.xid job.reply))
    (b : Nat) (n : UInt32) (r : ReplyT) :
    (s.storeReply server job.request index).HeldBy b n r ↔
      if n = job.request.cltNonce ∧ r.xid = job.request.xid then
        b = index ∧ r ∈ server.replyWindow n
      else s.HeldBy b n r := by
  by_cases entry : n = job.request.cltNonce ∧ r.xid = job.request.xid
  · rw [if_pos entry]
    rcases entry with ⟨rfl, same⟩
    have points : setBuf s.buf job.request (some index) job.request.cltNonce r.xid =
        some index := by
      rw [same, setBuf_self]
    constructor
    · rintro ⟨member, -, stored⟩
      exact ⟨(Option.some.inj (points.symm.trans stored)).symm, member⟩
    · rintro ⟨rfl, member⟩
      exact ⟨member, cbPresent_record window member same, points⟩
  · rw [if_neg entry]
    change r ∈ server.replyWindow n ∧ r.cbPresent = true ∧
      setBuf s.buf job.request (some index) n r.xid = some b ↔ _
    rw [mem_record_other window entry, setBuf_other s.buf job.request (some index) entry]
    exact Iff.rfl

theorem Tracked.new_held_iff (tracked : s.Tracked) (unknown : index ∉ s.added)
    (window : server.replyWindow = Function.update s.server.replyWindow job.request.cltNonce
      (addReply (s.server.replyWindow job.request.cltNonce) job.request.xid job.reply)) :
    (∃ n r, (s.storeReply server job.request index).HeldBy index n r) ↔
      ∃ r ∈ s.server.replyWindow job.request.cltNonce, r.xid = job.request.xid := by
  have own : server.replyWindow job.request.cltNonce =
      addReply (s.server.replyWindow job.request.cltNonce) job.request.xid job.reply := by
    rw [window, Function.update_self]
  constructor
  · rintro ⟨n, r, held⟩
    rw [heldBy_record window] at held
    by_cases entry : n = job.request.cltNonce ∧ r.xid = job.request.xid
    · rw [if_pos entry] at held
      rcases entry with ⟨rfl, same⟩
      have member := held.2
      rw [own] at member
      rcases exists_xid_of_mem_addReply member with ⟨q, before, number⟩
      exact ⟨q, before, number.trans same⟩
    · rw [if_neg entry] at held
      exact absurd (tracked.mem_added held) unknown
  · rintro ⟨r, before, same⟩
    have replied := mem_addReply_self (b := job.reply) before
    rw [same, ← own] at replied
    refine ⟨job.request.cltNonce, { xid := job.request.xid, cbPresent := true, buf := job.reply },
      (heldBy_record window _ _ _).mpr ?_⟩
    rw [if_pos ⟨rfl, rfl⟩]
    exact ⟨rfl, replied⟩

theorem Tracked.old_held_iff (tracked : s.Tracked) (unknown : index ∉ s.added)
    (window : server.replyWindow = Function.update s.server.replyWindow job.request.cltNonce
      (addReply (s.server.replyWindow job.request.cltNonce) job.request.xid job.reply))
    {b : Nat} {n : UInt32} {r : ReplyT} (added : b ∈ s.added) (before : s.HeldBy b n r) :
    (∃ m q, (s.storeReply server job.request index).HeldBy b m q) ↔
      ¬(n = job.request.cltNonce ∧ r.xid = job.request.xid) := by
  constructor
  · rintro ⟨m, q, held⟩ ⟨own, same⟩
    rw [heldBy_record window] at held
    by_cases entry : m = job.request.cltNonce ∧ q.xid = job.request.xid
    · rw [if_pos entry] at held
      rw [held.1] at added
      exact unknown added
    · rw [if_neg entry] at held
      rcases tracked.distinct b m q n r held before with ⟨client, number⟩
      exact entry ⟨client.trans own, number.trans same⟩
  · intro entry
    refine ⟨n, r, (heldBy_record window b n r).mpr ?_⟩
    rw [if_neg entry]
    exact before

/-- `add_reply` keeps the accounts if and only if the entry is there and unanswered. -/
theorem Tracked.record_iff (tracked : s.Tracked) (accounted : s.Accounted)
    (unknown : index ∉ s.added)
    (window : server.replyWindow = Function.update s.server.replyWindow job.request.cltNonce
      (addReply (s.server.replyWindow job.request.cltNonce) job.request.xid job.reply)) :
    (∀ b ∈ index :: s.added,
      (∃ n r, (s.storeReply server job.request index).HeldBy b n r) ∨ s.freed.count b = 1) ↔
      ∃ r ∈ s.server.replyWindow job.request.cltNonce,
        r.xid = job.request.xid ∧ r.cbPresent = false := by
  have unfreed : s.freed.count index = 0 :=
    List.count_eq_zero.mpr fun member => unknown (tracked.freed index member)
  rw [List.forall_mem_cons, tracked.new_held_iff unknown window]
  constructor
  · rintro ⟨found | once, every⟩
    · rcases found with ⟨r, member, same⟩
      refine ⟨r, member, same, ?_⟩
      by_contra answered
      rw [Bool.not_eq_false] at answered
      rcases tracked.present _ r member answered with ⟨b, added, points⟩
      have before : s.HeldBy b job.request.cltNonce r := ⟨member, answered, points⟩
      rcases every b added with held | once
      · exact (tracked.old_held_iff unknown window added before).mp held ⟨rfl, same⟩
      · exact tracked.unfreed b _ r before (List.count_pos_iff.mp (by omega))
    · omega
  · rintro ⟨r, member, same, unanswered⟩
    refine ⟨.inl ⟨r, member, same⟩, fun b added => ?_⟩
    rcases tracked.accounted_iff.mp accounted b added with ⟨n, q, before⟩ | once
    · left
      rw [tracked.old_held_iff unknown window added before]
      rintro ⟨rfl, number⟩
      rw [tracked.eq_of_xid before.1 member (number.trans same.symm)] at before
      exact Bool.false_ne_true (unanswered.symm.trans before.2.1)
    · exact .inr once

end Record

/-! ### `free_reply_window` -/

theorem Tracked.heldBy_of_points (tracked : s.Tracked) {n : UInt32} {r : ReplyT} {b : Nat}
    (member : r ∈ s.server.replyWindow n) (points : s.buf n r.xid = some b) : s.HeldBy b n r := by
  refine ⟨member, ?_, points⟩
  by_contra unanswered
  rw [Bool.not_eq_true] at unanswered
  cases points.symm.trans (tracked.absent n r member unanswered)

theorem Tracked.mem_remaining (tracked : s.Tracked) {b : Nat} :
    b ∈ s.remaining ↔ ∃ n r, s.HeldBy b n r := by
  unfold remaining
  rw [List.mem_flatMap]
  constructor
  · rintro ⟨n, -, found⟩
    rcases List.mem_filterMap.mp found with ⟨r, member, points⟩
    exact ⟨n, r, tracked.heldBy_of_points member points⟩
  · rintro ⟨n, r, member, present, points⟩
    refine ⟨n, ?_, List.mem_filterMap.mpr ⟨r, member, points⟩⟩
    rcases (tracked.sound.entries n r member).2 with ⟨job, inside, backs⟩
    exact List.mem_dedup.mpr (List.mem_map.mpr ⟨job, inside, backs.handled.2.1⟩)

/-- No buffer is freed twice. -/
theorem Tracked.nodup_remaining (tracked : s.Tracked) : s.remaining.Nodup := by
  unfold remaining
  rw [List.nodup_flatMap]
  constructor
  · intro n _client
    apply List.pairwise_filterMap.mpr
    apply (tracked.ordered n).imp_of_mem
    intro r q left right below b points c other
    rintro rfl
    have same := (tracked.distinct b n r n q (tracked.heldBy_of_points left points)
      (tracked.heldBy_of_points right other)).2
    exact Nat.ne_of_lt below same
  · apply (List.nodup_dedup _).imp
    intro n m different b left right
    rcases List.mem_filterMap.mp left with ⟨r, member, points⟩
    rcases List.mem_filterMap.mp right with ⟨q, inside, other⟩
    exact different (tracked.distinct b n r m q (tracked.heldBy_of_points member points)
      (tracked.heldBy_of_points inside other)).1

theorem Tracked.free_accounted (tracked : s.Tracked) (accounted : s.Accounted) :
    ∀ b ∈ s.added, (s.remaining ++ s.freed).count b = 1 := by
  intro b added
  rw [List.count_append]
  rcases accounted b added with ⟨⟨e, held, -⟩, unfreed⟩ | ⟨free, once⟩
  · have inside := tracked.mem_remaining.mpr ⟨e.1, e.2, held⟩
    rw [List.count_eq_one_of_mem tracked.nodup_remaining inside, List.count_eq_zero.mpr unfreed]
  · have outside : b ∉ s.remaining := by
      intro inside
      rcases tracked.mem_remaining.mp inside with ⟨n, r, held⟩
      exact free n r held
    rw [List.count_eq_zero.mpr outside, once]

/-! ### Runs -/

theorem step_server {action : BufferAction} (taken : s.step action = some next) :
    (∃ plain, s.server.step plain = some next.server) ∨
      next.server = { s.server with replyWindow := fun _ => [] } := by
  cases action with
  | gotPdu c request =>
      cases taken
      exact .inl ⟨.gotPdu c request, rfl⟩
  | freeReplyWindow =>
      cases taken
      exact .inr rfl
  | job index action =>
      rcases Option.bind_eq_some_iff.mp taken with ⟨job, here, rest⟩
      rcases Option.map_eq_some_iff.mp rest with ⟨⟨shared, after⟩, acted, same⟩
      have stepped : s.server.step (.job index action) =
          some { shared with jobs := s.server.jobs.set index after } := by
        rw [Rpcs.step, here, Option.bind_some, acted, Option.map_some]
      refine .inl ⟨.job index action, ?_⟩
      rw [stepped, ← same, jobStep_server]

theorem Tracked.sound_step (tracked : s.Tracked) {action : BufferAction}
    (taken : s.step action = some next) : next.server.Sound := by
  rcases step_server taken with ⟨plain, stepped⟩ | cleared
  · exact tracked.sound.step stepped
  · rw [cleared]
    exact ⟨tracked.sound.jobs, fun _n _r member => absurd member List.not_mem_nil,
      tracked.sound.done⟩

theorem pastReply_acts {server shared : Rpcs} {job after : Job} {action : JobAction}
    (acts : server.Acts job action shared after) (past : PastReply job) : PastReply after := by
  cases acts with
  | keep _ _ _ | reroute _ _ _ => exact .inr (.inl rfl)
  | send _ => exact .inr (.inr rfl)
  | oldServer early | direct early | prepare early | check early | handle early | record early =>
      rcases past with phase | phase | phase <;> cases phase.symm.trans early

theorem Tracked.past_step (tracked : s.Tracked) {action : BufferAction}
    (taken : s.step action = some next) {b : Nat} (added : b ∈ s.added) :
    ∃ job, next.server.jobs[b]? = some job ∧ PastReply job := by
  rcases tracked.past b added with ⟨job, here, past⟩
  rcases step_server taken with ⟨plain, stepped⟩ | cleared
  · cases plain with
    | gotPdu c request =>
        rw [← Option.some.inj stepped]
        have inside := (List.getElem?_eq_some_iff.mp here).1
        exact ⟨job, (List.getElem?_append_left inside).trans here, past⟩
    | job index action =>
        rcases Rpcs.step_job stepped with ⟨acting, shared, after, there, acts, same⟩
        rw [same]
        by_cases own : index = b
        · subst own
          cases here.symm.trans there
          exact ⟨after, slot_set_self here, pastReply_acts acts past⟩
        · exact ⟨job, (List.getElem?_set_ne own).trans here, past⟩
  · rw [cleared]
    exact ⟨job, here, past⟩

theorem Tracked.insert {job : Job} {server : Rpcs} (tracked : s.Tracked)
    (fresh : Fresh (s.server.replyWindow job.request.cltNonce) job.request.xid)
    (window : server.replyWindow = Function.update s.server.replyWindow job.request.cltNonce
      (inserted (s.server.replyWindow job.request.cltNonce) job.request))
    (sound : server.Sound)
    (past : ∀ b ∈ s.added, ∃ job, server.jobs[b]? = some job ∧ PastReply job) :
    (s.newEntry server job.request).Tracked := by
  have held := tracked.heldBy_insert fresh window
  refine ⟨sound, ?_, ?_, ?_, ?_, past, tracked.freed, ?_⟩
  · change ∀ n, Ordered (server.replyWindow n)
    rw [window]
    apply (Function.forall_update_iff _ fun _n rlist => Ordered rlist).mpr
    exact ⟨(tracked.ordered _).inserted fresh.1 _, fun n _other => tracked.ordered n⟩
  · intro n r member unanswered
    rcases (tracked.mem_insert window).mp member with ⟨⟨rfl, rfl⟩ | before, -⟩
    · exact setBuf_self _ _ _
    · exact (setBuf_fresh fresh before).trans (tracked.absent n r before unanswered)
  · intro n r member answered
    rcases (tracked.mem_insert window).mp member with ⟨⟨-, rfl⟩ | before, -⟩
    · cases answered
    · rcases tracked.present n r before answered with ⟨b, added, points⟩
      exact ⟨b, added, (setBuf_fresh fresh before).trans points⟩
  · intro b n r m q left right
    exact tracked.distinct b n r m q ((held b n r).mp left).1 ((held b m q).mp right).1
  · intro b n r left
    exact tracked.unfreed b n r ((held b n r).mp left).1

theorem Tracked.record {job : Job} {server : Rpcs} {index : Nat} (tracked : s.Tracked)
    (unknown : index ∉ s.added)
    (window : server.replyWindow = Function.update s.server.replyWindow job.request.cltNonce
      (addReply (s.server.replyWindow job.request.cltNonce) job.request.xid job.reply))
    (sound : server.Sound)
    (past : ∀ b ∈ index :: s.added, ∃ job, server.jobs[b]? = some job ∧ PastReply job) :
    (s.storeReply server job.request index).Tracked := by
  refine ⟨sound, ?_, ?_, ?_, ?_, past, ?_, ?_⟩
  · change ∀ n, Ordered (server.replyWindow n)
    rw [window]
    apply (Function.forall_update_iff _ fun _n rlist => Ordered rlist).mpr
    exact ⟨(tracked.ordered _).addReply _ _, fun n _other => tracked.ordered n⟩
  · intro n r member unanswered
    by_cases entry : n = job.request.cltNonce ∧ r.xid = job.request.xid
    · rcases entry with ⟨rfl, same⟩
      cases (cbPresent_record window member same).symm.trans unanswered
    · have before := (mem_record_other window entry).mp member
      exact (setBuf_other _ _ _ entry).trans (tracked.absent n r before unanswered)
  · intro n r member answered
    by_cases entry : n = job.request.cltNonce ∧ r.xid = job.request.xid
    · refine ⟨index, List.mem_cons_self, ?_⟩
      change setBuf s.buf job.request (some index) n r.xid = some index
      rw [entry.1, entry.2, setBuf_self]
    · have before := (mem_record_other window entry).mp member
      rcases tracked.present n r before answered with ⟨b, added, points⟩
      exact ⟨b, List.mem_cons_of_mem _ added, (setBuf_other _ _ _ entry).trans points⟩
  · intro b n r m q left right
    rw [heldBy_record window] at left right
    by_cases first : n = job.request.cltNonce ∧ r.xid = job.request.xid
    · by_cases second : m = job.request.cltNonce ∧ q.xid = job.request.xid
      · exact ⟨first.1.trans second.1.symm, first.2.trans second.2.symm⟩
      · rw [if_pos first] at left
        rw [if_neg second, left.1] at right
        exact absurd (tracked.mem_added right) unknown
    · by_cases second : m = job.request.cltNonce ∧ q.xid = job.request.xid
      · rw [if_pos second] at right
        rw [if_neg first, right.1] at left
        exact absurd (tracked.mem_added left) unknown
      · rw [if_neg first] at left
        rw [if_neg second] at right
        exact tracked.distinct b n r m q left right
  · exact fun b freed => List.mem_cons_of_mem _ (tracked.freed b freed)
  · intro b n r after freed
    rw [heldBy_record window] at after
    by_cases entry : n = job.request.cltNonce ∧ r.xid = job.request.xid
    · rw [if_pos entry] at after
      rw [after.1] at freed
      exact unknown (tracked.freed index freed)
    · rw [if_neg entry] at after
      exact tracked.unfreed b n r after freed

theorem Tracked.step (tracked : s.Tracked) {action : BufferAction}
    (taken : s.step action = some next) : next.Tracked := by
  have sound := tracked.sound_step taken
  have past := fun b (added : b ∈ s.added) => tracked.past_step taken added
  cases step_moves taken with
  | quiet server window keeps =>
      rcases server with ⟨nonce, procs, replyWindow, conns, jobs⟩
      cases window
      exact ⟨sound, tracked.ordered, tracked.absent, tracked.present, tracked.distinct, past,
        tracked.freed, tracked.unfreed⟩
  | insert here fresh server window => exact tracked.insert fresh window sound past
  | @record index job here returned server window jobs =>
      apply tracked.record (tracked.not_added here returned) window sound
      intro b member
      rcases List.mem_cons.mp member with rfl | added
      · refine ⟨{ job with phase := .recorded }, ?_, .inl rfl⟩
        rw [jobs]
        exact slot_set_self here
      · exact past b added
  | free =>
      refine ⟨sound, fun _n => .nil, ?_, ?_, ?_, past, ?_, ?_⟩
      · exact fun _n _r member => absurd member List.not_mem_nil
      · exact fun _n _r member => absurd member List.not_mem_nil
      · exact fun _b _n _r _m _q held => absurd held.1 List.not_mem_nil
      · intro b member
        rcases List.mem_append.mp member with now | before
        · rcases tracked.mem_remaining.mp now with ⟨n, r, held⟩
          exact tracked.mem_added held
        · exact tracked.freed b before
      · exact fun _b _n _r held => absurd held.1 List.not_mem_nil

theorem Tracked.accounted_step (tracked : s.Tracked) (accounted : s.Accounted)
    {action : BufferAction} (taken : s.step action = some next) :
    next.Accounted ↔ s.Keeps action := by
  rw [(tracked.step taken).accounted_iff]
  cases step_moves taken with
  | quiet server window keeps =>
      rcases server with ⟨nonce, procs, replyWindow, conns, jobs⟩
      cases window
      exact iff_of_true (tracked.accounted_iff.mp accounted) keeps
  | insert here fresh server window =>
      refine (tracked.insert_iff accounted fresh window).trans ?_
      constructor
      · intro kept other there _fresh
        cases here.symm.trans there
        exact kept
      · exact fun keeps => keeps _ here fresh
  | record here returned server window jobs =>
      refine (tracked.record_iff accounted (tracked.not_added here returned) window).trans ?_
      constructor
      · intro kept other there
        cases here.symm.trans there
        exact kept
      · exact fun keeps => keeps _ here
  | free =>
      refine iff_of_true ?_ trivial
      exact fun b added => .inr (tracked.free_accounted accounted b added)

end BufferServer

/-- In a run each buffer is accounted for at every moment if and only if each step
`Keeps` the accounts. -/
theorem reply_buffers_accounted_iff {nonce : UInt32} {procs : Nat → Bool}
    {actions : List BufferAction} {final : BufferServer}
    (ran : run BufferServer.step (.start nonce procs) actions = some final) :
    Throughout BufferServer.step BufferServer.Accounted (.start nonce procs) actions ↔
      Guarded BufferServer.step BufferServer.Keeps (.start nonce procs) actions :=
  throughout_iff_guarded (fun _state _action _next tracked taken => tracked.step taken)
    (fun _state _action _next tracked accounted taken => tracked.accounted_step accounted taken)
    (BufferServer.Tracked.start nonce procs) (fun _b member => absurd member List.not_mem_nil) ran

private def numberedRequest (xid xidRep : Nat) : Request :=
  { xid := xid, proc := 2, cltNonce := 5, srvNonce := 9, xidRep := xidRep, args := [] }

private def handledActions (index xid xidRep : Nat) : List BufferAction :=
  [.gotPdu sampleConn (numberedRequest xid xidRep), .job index .prepare, .job index .check,
    .job index (.handle 0 [7])]

private def onceActions : List BufferAction :=
  handledActions 0 1 0 ++ [.job 0 .record, .freeReplyWindow]

theorem reply_buffers_accounted_iff_one :
    Throughout BufferServer.step BufferServer.Accounted (.start 9 (fun proc => proc = 2))
      onceActions := by
  have ran : (run BufferServer.step (.start 9 (fun proc => proc = 2)) onceActions).isSome := by
    decide
  rcases Option.isSome_iff_exists.mp ran with ⟨final, ran⟩
  refine (reply_buffers_accounted_iff ran).mpr ⟨trivial, fun _ arrived => ?_⟩
  cases arrived
  refine ⟨trivial, fun _ prepared => ?_⟩
  cases prepared
  refine ⟨?_, fun _ checked => ?_⟩
  · intro job here fresh r member
    cases here
    cases member
  cases checked
  refine ⟨trivial, fun _ returned => ?_⟩
  cases returned
  refine ⟨?_, fun _ recorded => ⟨trivial, fun _ _ => trivial⟩⟩
  intro job here
  cases here
  exact ⟨.start 1, List.mem_cons_self, rfl, rfl⟩

/-- Calls 1 and 2 are answered; call 3 acknowledges both. -/
private def retiredActions : List BufferAction :=
  handledActions 0 1 0 ++ [.job 0 .record] ++ handledActions 1 2 1 ++ [.job 1 .record] ++
    handledActions 2 3 2

/-- The client gives up call 1, whose handler returns after call 3 came. -/
private def givenUpActions : List BufferAction :=
  handledActions 0 1 0 ++ handledActions 1 2 1 ++ [.job 1 .record] ++
    handledActions 2 3 2 ++ [.job 0 .record]

private theorem not_accounted {actions : List BufferAction}
    (ran : (run BufferServer.step (.start 9 (fun proc => proc = 2)) actions).any (fun s =>
      decide (0 ∈ s.added ∧ 0 ∉ s.remaining ∧ 0 ∉ s.freed)) = true) :
    ∃ s, run BufferServer.step (.start 9 (fun proc => proc = 2)) actions = some s ∧
      ¬s.Accounted := by
  rcases (Option.any_eq_true _ _).mp ran with ⟨s, ran, facts⟩
  rcases of_decide_eq_true facts with ⟨added, unheld, unfreed⟩
  have tracked : s.Tracked :=
    run_invariant (fun _state _action _next before taken => BufferServer.Tracked.step before taken)
      (BufferServer.Tracked.start _ _) ran
  refine ⟨s, ran, fun accounted => ?_⟩
  rcases tracked.accounted_iff.mp accounted 0 added with held | once
  · exact unheld (tracked.mem_remaining.mpr held)
  · exact unfreed (List.count_pos_iff.mp (by omega))

/-- Neither of them frees the first buffer, and no entry has it. -/
theorem reply_buffers_lost :
    (∃ s, run BufferServer.step (.start 9 (fun proc => proc = 2)) retiredActions = some s ∧
      ¬s.Accounted) ∧
    ∃ s, run BufferServer.step (.start 9 (fun proc => proc = 2)) givenUpActions = some s ∧
      ¬s.Accounted :=
  ⟨not_accounted (by decide), not_accounted (by decide)⟩

end CseLab.Rpc
