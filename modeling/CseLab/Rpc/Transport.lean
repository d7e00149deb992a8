import CseLab.Rpc.AtMostOnce
import CseLab.Rpc.Client

/-! One client and one server over connections that die. A death is noticed by
each end at its own time; until then what it sends is lost. `call1` transmits on
the current connection, and again only when it sees its connection dead. -/

namespace CseLab.Rpc

open Transition

/-- A connection: whether it has died, which of its ends have noticed, and the
PDUs on their way. -/
structure Channel where
  cut : Bool
  clientDead : Bool
  serverDead : Bool
  up : List Request
  down : List Reply

def Channel.fresh : Channel :=
  { cut := false, clientDead := false, serverDead := false, up := [], down := [] }

def Channel.sendUp (ch : Channel) (request : Request) : Channel :=
  if ch.clientDead ∨ ch.cut then ch else { ch with up := ch.up ++ [request] }

def Channel.sendDown (ch : Channel) (reply : Reply) : Channel :=
  if ch.serverDead ∨ ch.cut then ch else { ch with down := ch.down ++ [reply] }

/-- A thread in `call1`: its request, and the connection `ch` on which it last
transmitted. -/
structure Thread where
  request : Request
  ch : Option Conn

structure Transport where
  client : Rpcc
  chan : Option Conn
  threads : Nat → Option Thread
  server : Rpcs
  channels : Conn → Channel
  opened : List Conn

def Transport.start (cltNonce nonce : UInt32) (procs : Nat → Bool) : Transport :=
  { client := Rpcc.start cltNonce
    chan := none
    threads := fun _ => none
    server := Rpcs.start nonce procs
    channels := fun _ => Channel.fresh
    opened := [] }

/-- `transmit` is a round of the loop of `call1`; a connection that it has to open is
the given one, or cannot be opened. `arrive` and `answer` are the reads of the server's
and the client's end. -/
inductive TransportAction where
  | call (proc : Nat) (args : List UInt8)
  | transmit (xid : Nat) (connected : Option Conn)
  | leave (xid : Nat)
  | bound (nonce : UInt32)
  | arrive (c : Conn)
  | answer (c : Conn)
  | cut (c : Conn)
  | clientNotices (c : Conn)
  | serverNotices (c : Conn)
  | job (index : Nat) (action : JobAction)

def Transport.setChannel (s : Transport) (c : Conn) (ch : Channel) : Transport :=
  { s with channels := Function.update s.channels c ch }

/-- Whether an end of the client sees no usable connection here. -/
def Transport.unusable (s : Transport) (c : Option Conn) : Bool :=
  c.all (fun c => (s.channels c).clientDead)

/-- `get_refconn`: the current connection, opened again if it is dead. -/
def Transport.getRefconn (s : Transport) (connected : Option Conn) : Option Transport :=
  if s.unusable s.chan then
    match connected with
    | none => some { s with chan := none }
    | some c =>
        if c ∈ s.opened ∨ c.owner ≠ s.client.cltNonce then none
        else some { s with chan := some c, opened := c :: s.opened }
  else some s

def Transport.send (s : Transport) (xid : Nat) (t : Thread) : Transport :=
  match s.chan.or t.ch with
  | none => s
  | some c =>
      { s.setChannel c ((s.channels c).sendUp t.request) with
        threads := Function.update s.threads xid (some { t with ch := some c }) }

/-- The choice of the connection looks at the server's own end. -/
def Transport.sees (s : Transport) (index : Nat) : JobAction → Bool
  | .choose isdead =>
      s.server.jobs[index]?.all (fun job => (s.channels job.conn).serverDead == isdead)
  | _ => true

def Transport.step (s : Transport) : TransportAction → Option Transport
  | .call proc args =>
      match s.client.call1 proc args with
      | .error _ => some s
      | .ok (c, request) =>
          some { s with
            client := c
            threads := Function.update s.threads request.xid
              (some { request := request, ch := none }) }
  | .transmit xid connected =>
      (s.threads xid).bind fun t =>
        if s.unusable t.ch then (s.getRefconn connected).map (fun s => s.send xid t) else none
  | .leave xid =>
      (s.client.leave xid).map fun (c, _result) =>
        { s with client := c, threads := Function.update s.threads xid none }
  | .bound nonce => some { s with client := s.client.bound nonce }
  | .arrive c =>
      if (s.channels c).serverDead then none
      else
        match (s.channels c).up with
        | [] => none
        | request :: rest =>
            (s.server.step (.gotPdu c request)).map fun server =>
              { s.setChannel c { s.channels c with up := rest } with server := server }
  | .answer c =>
      if (s.channels c).clientDead then none
      else
        match (s.channels c).down with
        | [] => none
        | reply :: rest =>
            some { s.setChannel c { s.channels c with down := rest } with
              client := s.client.gotPdu reply }
  | .cut c => some (s.setChannel c { s.channels c with cut := true })
  | .clientNotices c =>
      if (s.channels c).cut then
        some (s.setChannel c { s.channels c with clientDead := true, down := [] })
      else none
  | .serverNotices c =>
      if (s.channels c).cut then
        some (s.setChannel c { s.channels c with serverDead := true, up := [] })
      else none
  | .job index action =>
      if s.sees index action then
        (s.server.step (.job index action)).map fun server =>
          match s.server.sends (.job index action) with
          | none => { s with server := server }
          | some (c, reply) =>
              { s.setChannel c ((s.channels c).sendDown reply) with server := server }
      else none

/-! ### Stranded calls -/

def Transport.Pending (s : Transport) (xid : Nat) : Prop :=
  ∃ ca ∈ s.client.calls, ca.xid = xid ∧ ca.done = false

/-- The connection is alive at both ends. -/
structure Channel.Alive (ch : Channel) : Prop where
  cut : ch.cut = false
  client : ch.clientDead = false
  server : ch.serverDead = false

/-- The call waits, and the connection on which it last transmitted is alive. -/
structure Transport.Waits (s : Transport) (xid : Nat) (c : Conn) : Prop where
  pending : s.Pending xid
  transmitted : ∃ t, s.threads xid = some t ∧ t.ch = some c
  alive : (s.channels c).Alive

def Job.For (job : Job) (n : UInt32) (xid : Nat) : Prop :=
  job.request.cltNonce = n ∧ job.request.xid = xid

/-- The call waits on a live connection and its handler has finished, but
nothing of it is left: no copy of the request, no job and no reply. -/
def Transport.Stranded (s : Transport) (xid : Nat) : Prop :=
  (∃ c, s.Waits xid c) ∧
    (∃ job ∈ s.server.jobs, job.Handled s.client.cltNonce xid ∧ job.phase ≠ .running) ∧
    (∀ c, ∀ request ∈ (s.channels c).up, request.xid ≠ xid) ∧
    (∀ job ∈ s.server.jobs, job.For s.client.cltNonce xid → job.phase = .finished) ∧
    ∀ c, ∀ reply ∈ (s.channels c).down, reply.xid ≠ xid

end CseLab.Rpc
