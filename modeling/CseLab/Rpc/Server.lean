import CseLab.Lib.BigEndian
import CseLab.Lib.Transition
import CseLab.Rpc.ReplyWindow

/-! `rpcs`. Each job is one run of `dispatch`, cut where it takes and gives up a
lock; any number of jobs are in progress at once. A step is undefined where the
source would abort. -/

namespace CseLab.Rpc

open BigEndian

structure Conn where
  owner : UInt32
  id : Nat
  createTime : Nat
deriving DecidableEq

def Conn.compare (c another : Conn) : Int :=
  if another.createTime < c.createTime then 1
  else if c.createTime < another.createTime then -1
  else 0

/-- Where `dispatch` stands: it is queued, has saved the latest connection, is in the
handler or behind it, is past `add_reply`, or is about to send. -/
inductive Phase where
  | queued
  | admitted
  | running
  | returned
  | recorded
  | sending
  | finished
deriving DecidableEq

/-- A run of `dispatch`: the connection `c`, the request, and what it has
learnt of `stat` and of the reply that it is to send. -/
structure Job where
  conn : Conn
  request : Request
  stat : Option RpcState
  reply : Option Reply
  phase : Phase
deriving DecidableEq

def Job.start (c : Conn) (request : Request) : Job :=
  { conn := c, request := request, stat := none, reply := none, phase := .queued }

structure Rpcs where
  nonce : UInt32
  procs : Nat → Bool
  replyWindow : UInt32 → List ReplyT
  conns : UInt32 → Option Conn
  jobs : List Job

def Rpcs.start (nonce : UInt32) (procs : Nat → Bool) : Rpcs :=
  { nonce := nonce
    procs := fun proc => procs proc || decide (proc = RpcConst.bind)
    replyWindow := fun _ => []
    conns := fun _ => none
    jobs := [] }

/-! ### `dispatch` -/

def latestConn (known : Option Conn) (c : Conn) : Conn :=
  match known with
  | none => c
  | some old => if old.compare c < 0 then c else old

/-- Refuses requests for an old instance, looks up the procedure, and saves the
latest connection. A client with nonce 0 gets no duplicate check. -/
def Rpcs.prepare (s : Rpcs) (job : Job) : Option (Rpcs × Job) :=
  let h := job.request
  if h.srvNonce ≠ 0 ∧ h.srvNonce ≠ s.nonce then
    some (s, { job with
      reply := some { xid := h.xid, ret := RpcConst.oldsrvFailure, body := [] }
      phase := .sending })
  else if s.procs h.proc = false then none
  else if h.cltNonce = 0 then some (s, { job with stat := some .new, phase := .running })
  else
    some ({ s with
        conns := Function.update s.conns h.cltNonce
          (some (latestConn (s.conns h.cltNonce) job.conn)) },
      { job with phase := .admitted })

def Job.checked (job : Job) (stat : RpcState) (b : Option Reply) : Job :=
  match stat with
  | .new => { job with stat := some .new, phase := .running }
  | .inProgress => { job with stat := some .inProgress, phase := .finished }
  | .done => { job with stat := some .done, reply := b, phase := .sending }
  | .forgotten =>
      { job with
        stat := some .forgotten
        reply := some
          { xid := job.request.xid, ret := RpcConst.atmostonceFailure, body := [] }
        phase := .sending }

def Rpcs.check (s : Rpcs) (job : Job) : Rpcs × Job :=
  let h := job.request
  let (stat, b, rlist) := checkduplicateAndUpdate (s.replyWindow h.cltNonce) h.xid h.xidRep
  ({ s with replyWindow := Function.update s.replyWindow h.cltNonce rlist }, job.checked stat b)

/-- `f->fn` returns. The handler of bind is `rpcbind`; any other may return any
result that passes the assertion. -/
def Rpcs.handle (s : Rpcs) (job : Job) (ret : Int) (body : List UInt8) : Option Job :=
  if ret < 0 then none
  else if job.request.proc = RpcConst.bind ∧ ¬ (ret = 0 ∧ body = bytes32 s.nonce) then none
  else
    some { job with
      reply := some { xid := job.request.xid, ret := ret, body := body }
      phase := if job.request.cltNonce = 0 then .recorded else .returned }

def Rpcs.record (s : Rpcs) (job : Job) : Rpcs × Job :=
  let h := job.request
  ({ s with
      replyWindow := Function.update s.replyWindow h.cltNonce
        (addReply (s.replyWindow h.cltNonce) h.xid job.reply) },
    { job with phase := .recorded })

def Rpcs.choose (s : Rpcs) (job : Job) (isdead : Bool) : Option Job :=
  if isdead = true ∧ some job.conn ≠ s.conns job.request.cltNonce then
    (s.conns job.request.cltNonce).map fun c => { job with conn := c, phase := .sending }
  else some { job with phase := .sending }

inductive JobAction where
  | prepare
  | check
  | handle (ret : Int) (body : List UInt8)
  | record
  | choose (isdead : Bool)
  | send

def Rpcs.act (s : Rpcs) (job : Job) : JobAction → Option (Rpcs × Job)
  | .prepare => if job.phase = .queued then s.prepare job else none
  | .check => if job.phase = .admitted then some (s.check job) else none
  | .handle ret body =>
      if job.phase = .running then (s.handle job ret body).map (fun next => (s, next)) else none
  | .record => if job.phase = .returned then some (s.record job) else none
  | .choose isdead =>
      if job.phase = .recorded then (s.choose job isdead).map (fun next => (s, next)) else none
  | .send => if job.phase = .sending then some (s, { job with phase := .finished }) else none

/-! ### The server -/

inductive RpcsAction where
  | gotPdu (c : Conn) (request : Request)
  | job (index : Nat) (action : JobAction)

def Rpcs.step (s : Rpcs) : RpcsAction → Option Rpcs
  | .gotPdu c request => some { s with jobs := s.jobs ++ [Job.start c request] }
  | .job index action =>
      (s.jobs[index]?).bind fun job =>
        (s.act job action).map fun (next, after) =>
          { next with jobs := s.jobs.set index after }

def Rpcs.sends (s : Rpcs) : RpcsAction → Option (Conn × Reply)
  | .job index .send =>
      (s.jobs[index]?).bind fun job => job.reply.map fun reply => (job.conn, reply)
  | _ => none

inductive Rpcs.Acts (s : Rpcs) (job : Job) : JobAction → Rpcs → Job → Prop
  | oldServer (queued : job.phase = .queued) (old : job.request.srvNonce ≠ 0)
      (other : job.request.srvNonce ≠ s.nonce) :
      Acts s job .prepare s { job with
        reply := some { xid := job.request.xid, ret := RpcConst.oldsrvFailure, body := [] }
        phase := .sending }
  | direct (queued : job.phase = .queued)
      (accepted : job.request.srvNonce = 0 ∨ job.request.srvNonce = s.nonce)
      (anonymous : job.request.cltNonce = 0) :
      Acts s job .prepare s { job with stat := some .new, phase := .running }
  | prepare (queued : job.phase = .queued)
      (accepted : job.request.srvNonce = 0 ∨ job.request.srvNonce = s.nonce)
      (named : job.request.cltNonce ≠ 0) :
      Acts s job .prepare
        { s with
          conns := Function.update s.conns job.request.cltNonce
            (some (latestConn (s.conns job.request.cltNonce) job.conn)) }
        { job with phase := .admitted }
  | check (admitted : job.phase = .admitted) (stat : RpcState) (b : Option Reply)
      (rlist : List ReplyT)
      (checked : Checked (s.replyWindow job.request.cltNonce) job.request.xid job.request.xidRep
        stat b rlist) :
      Acts s job .check
        { s with replyWindow := Function.update s.replyWindow job.request.cltNonce rlist }
        (job.checked stat b)
  | handle (running : job.phase = .running) (ret : Int) (body : List UInt8) (valid : 0 ≤ ret)
      (bind : job.request.proc = RpcConst.bind → ret = 0 ∧ body = bytes32 s.nonce) :
      Acts s job (.handle ret body) s { job with
        reply := some { xid := job.request.xid, ret := ret, body := body }
        phase := if job.request.cltNonce = 0 then .recorded else .returned }
  | record (returned : job.phase = .returned) :
      Acts s job .record
        { s with
          replyWindow := Function.update s.replyWindow job.request.cltNonce
            (addReply (s.replyWindow job.request.cltNonce) job.request.xid job.reply) }
        { job with phase := .recorded }
  | keep (recorded : job.phase = .recorded) (isdead : Bool)
      (good : isdead = true → s.conns job.request.cltNonce = some job.conn) :
      Acts s job (.choose isdead) s { job with phase := .sending }
  | reroute (recorded : job.phase = .recorded) (c : Conn)
      (latest : s.conns job.request.cltNonce = some c) :
      Acts s job (.choose true) s { job with conn := c, phase := .sending }
  | send (sending : job.phase = .sending) : Acts s job .send s { job with phase := .finished }

theorem Rpcs.act_cases {s next : Rpcs} {job after : Job} {action : JobAction}
    (acted : s.act job action = some (next, after)) : s.Acts job action next after := by
  cases action with
  | prepare =>
      obtain ⟨queued, ran⟩ := Option.ite_none_right_eq_some.mp acted
      unfold Rpcs.prepare at ran
      dsimp only at ran
      split at ran
      · rename_i old
        cases ran
        exact .oldServer queued old.1 old.2
      · rename_i current
        have accepted : job.request.srvNonce = 0 ∨ job.request.srvNonce = s.nonce := by
          by_contra neither
          rw [not_or] at neither
          exact current neither
        split at ran
        · cases ran
        · split at ran
          · rename_i anonymous
            cases ran
            exact .direct queued accepted anonymous
          · rename_i named
            cases ran
            exact .prepare queued accepted named
  | check =>
      obtain ⟨admitted, ran⟩ := Option.ite_none_right_eq_some.mp acted
      cases ran
      exact .check admitted _ _ _ (checkduplicateAndUpdate_spec _ _ _)
  | handle ret body =>
      obtain ⟨running, ran⟩ := Option.ite_none_right_eq_some.mp acted
      obtain ⟨_after, handled, same⟩ := Option.map_eq_some_iff.mp ran
      cases same
      unfold Rpcs.handle at handled
      split at handled
      · cases handled
      · rename_i valid
        split at handled
        · cases handled
        · rename_i bind
          cases handled
          refine .handle running ret body (not_lt.mp valid) ?_
          intro isBind
          by_contra other
          exact bind ⟨isBind, other⟩
  | record =>
      obtain ⟨returned, ran⟩ := Option.ite_none_right_eq_some.mp acted
      cases ran
      exact .record returned
  | choose isdead =>
      obtain ⟨recorded, ran⟩ := Option.ite_none_right_eq_some.mp acted
      obtain ⟨_after, chosen, same⟩ := Option.map_eq_some_iff.mp ran
      cases same
      unfold Rpcs.choose at chosen
      split at chosen
      · rename_i stale
        obtain ⟨c, latest, same⟩ := Option.map_eq_some_iff.mp chosen
        cases same
        rw [stale.1]
        exact .reroute recorded c latest
      · rename_i good
        cases chosen
        refine .keep recorded isdead ?_
        intro dead
        by_contra other
        exact good ⟨dead, fun same => other same.symm⟩
  | send =>
      obtain ⟨sending, ran⟩ := Option.ite_none_right_eq_some.mp acted
      cases ran
      exact .send sending

theorem Rpcs.step_job {s next : Rpcs} {index : Nat} {action : JobAction}
    (taken : s.step (.job index action) = some next) :
    ∃ job shared after, s.jobs[index]? = some job ∧ s.Acts job action shared after ∧
      next = { shared with jobs := s.jobs.set index after } := by
  obtain ⟨job, here, rest⟩ := Option.bind_eq_some_iff.mp taken
  obtain ⟨⟨shared, after⟩, acted, same⟩ := Option.map_eq_some_iff.mp rest
  exact ⟨job, shared, after, here, Rpcs.act_cases acted, same.symm⟩

end CseLab.Rpc
