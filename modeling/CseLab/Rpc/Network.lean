import CseLab.Rpc.Acknowledgement
import CseLab.Rpc.AtMostOnce

/-! Clients, server instances and a network that may lose, duplicate, delay and
reorder PDUs: every PDU ever sent can arrive at any time, any number of times.
An instance that has been restarted is one that takes no more steps, so the
instances after a restart are among those that take steps at all. -/

namespace CseLab.Rpc

open BigEndian Transition

structure Returned where
  cltNonce : UInt32
  xid : Nat
  ret : Int
  body : List UInt8
deriving DecidableEq

/-- The clients by their nonces and the server instances by theirs, all PDUs
sent so far, the results of bind calls that are yet to be stored, and two logs:
what calls have returned, and the nonces that clients have stored. -/
structure Network where
  clients : UInt32 → Rpcc
  servers : UInt32 → Rpcs
  requests : List Request
  replies : List (Conn × Reply)
  binds : List (UInt32 × List UInt8)
  returned : List Returned
  stored : List (UInt32 × UInt32)

def Network.start (procs : Nat → Bool) : Network :=
  { clients := Rpcc.start
    servers := fun nonce => Rpcs.start nonce procs
    requests := []
    replies := []
    binds := []
    returned := []
    stored := [] }

/-- `leave` ends a call with or without its reply, and `bind` stores what a call of
`bind` has returned. A request and a reply may arrive more than once. -/
inductive NetworkAction where
  | call (n : UInt32) (proc : Nat) (args : List UInt8)
  | leave (n : UInt32) (xid : Nat)
  | cancel (n : UInt32)
  | bind (index : Nat)
  | request (m : UInt32) (index : Nat) (c : Conn)
  | reply (index : Nat)
  | job (m : UInt32) (index : Nat) (action : JobAction)

def Network.setClient (s : Network) (n : UInt32) (c : Rpcc) : Network :=
  { s with clients := Function.update s.clients n c }

def Network.setServer (s : Network) (m : UInt32) (server : Rpcs) : Network :=
  { s with servers := Function.update s.servers m server }

def Network.isBind (s : Network) (n : UInt32) (xid : Nat) : Bool :=
  s.requests.any (fun r => decide (r.cltNonce = n ∧ r.xid = xid ∧ r.proc = RpcConst.bind))

/-- The nonces of clients and of servers are not zero. -/
def Network.step (s : Network) : NetworkAction → Option Network
  | .call n proc args =>
      if n = 0 then none
      else
        match (s.clients n).call1 proc args with
        | .error _ => some s
        | .ok (c, request) => some { s.setClient n c with requests := request :: s.requests }
  | .leave n xid =>
      ((s.clients n).leave xid).map fun (c, ret, body) =>
        { s.setClient n c with
          returned := { cltNonce := n, xid := xid, ret := ret, body := body } :: s.returned
          binds := if ret = 0 ∧ s.isBind n xid = true then (n, body) :: s.binds else s.binds }
  | .cancel n => some (s.setClient n (s.clients n).cancel)
  | .bind index =>
      (s.binds[index]?).bind fun (n, body) =>
        if body.length = 4 then
          some { s.setClient n ((s.clients n).bound (word32 body)) with
            binds := s.binds.eraseIdx index
            stored := (n, word32 body) :: s.stored }
        else none
  | .request m index c =>
      (s.requests[index]?).bind fun request =>
        if m ≠ 0 ∧ c.owner = request.cltNonce then
          ((s.servers m).step (.gotPdu c request)).map (s.setServer m)
        else none
  | .reply index =>
      (s.replies[index]?).map fun (c, reply) =>
        s.setClient c.owner ((s.clients c.owner).gotPdu reply)
  | .job m index action =>
      ((s.servers m).step (.job index action)).map fun server =>
        { s.setServer m server with
          replies := ((s.servers m).sends (.job index action)).toList ++ s.replies }

inductive Network.Steps (s : Network) : NetworkAction → Network → Prop
  | refused (n : UInt32) (proc : Nat) (args : List UInt8) : Steps s (.call n proc args) s
  | call (n : UInt32) (proc : Nat) (args : List UInt8) (named : n ≠ 0) (c : Rpcc)
      (request : Request) (called : (s.clients n).call1 proc args = .ok (c, request)) :
      Steps s (.call n proc args)
        { s.setClient n c with requests := request :: s.requests }
  | leave (n : UInt32) (xid : Nat) (c : Rpcc) (result : Int × List UInt8)
      (left : (s.clients n).leave xid = some (c, result))
      (binds : List (UInt32 × List UInt8))
      (bound : binds = s.binds ∨
        binds = (n, result.2) :: s.binds ∧ result.1 = 0 ∧ s.isBind n xid = true) :
      Steps s (.leave n xid)
        { s.setClient n c with
          returned := { cltNonce := n, xid := xid, ret := result.1, body := result.2 } ::
            s.returned
          binds := binds }
  | cancel (n : UInt32) : Steps s (.cancel n) (s.setClient n (s.clients n).cancel)
  | bind (index : Nat) (n : UInt32) (body : List UInt8) (member : (n, body) ∈ s.binds) :
      Steps s (.bind index)
        { s.setClient n ((s.clients n).bound (word32 body)) with
          binds := s.binds.eraseIdx index
          stored := (n, word32 body) :: s.stored }
  | request (m : UInt32) (index : Nat) (c : Conn) (named : m ≠ 0) (request : Request)
      (member : request ∈ s.requests) (owned : c.owner = request.cltNonce) (server : Rpcs)
      (taken : (s.servers m).step (.gotPdu c request) = some server) :
      Steps s (.request m index c) (s.setServer m server)
  | reply (index : Nat) (c : Conn) (reply : Reply) (member : (c, reply) ∈ s.replies) :
      Steps s (.reply index) (s.setClient c.owner ((s.clients c.owner).gotPdu reply))
  | job (m : UInt32) (index : Nat) (action : JobAction) (server : Rpcs)
      (taken : (s.servers m).step (.job index action) = some server) :
      Steps s (.job m index action)
        { s.setServer m server with
          replies := ((s.servers m).sends (.job index action)).toList ++ s.replies }

theorem Network.step_cases {s next : Network} {action : NetworkAction}
    (taken : s.step action = some next) : s.Steps action next := by
  cases action with
  | call n proc args =>
      dsimp only [Network.step] at taken
      split at taken
      · cases taken
      · rename_i named
        cases called : (s.clients n).call1 proc args with
        | error failure =>
            rw [called] at taken
            cases taken
            exact .refused n proc args
        | ok result =>
            rw [called] at taken
            cases taken
            exact .call n proc args named result.1 result.2 called
  | leave n xid =>
      obtain ⟨⟨c, result⟩, left, same⟩ := Option.map_eq_some_iff.mp taken
      cases same
      refine .leave n xid c result left _ ?_
      by_cases bound : result.1 = 0 ∧ s.isBind n xid = true
      · exact Or.inr ⟨if_pos bound, bound⟩
      · exact Or.inl (if_neg bound)
  | cancel n =>
      cases taken
      exact .cancel n
  | bind index =>
      obtain ⟨⟨n, body⟩, here, rest⟩ := Option.bind_eq_some_iff.mp taken
      obtain ⟨_whole, same⟩ := Option.ite_none_right_eq_some.mp rest
      cases same
      exact .bind index n body (List.mem_of_getElem? here)
  | request m index c =>
      obtain ⟨request, here, rest⟩ := Option.bind_eq_some_iff.mp taken
      obtain ⟨⟨named, owned⟩, arrived⟩ := Option.ite_none_right_eq_some.mp rest
      obtain ⟨server, gotPdu, same⟩ := Option.map_eq_some_iff.mp arrived
      cases same
      exact .request m index c named request (List.mem_of_getElem? here) owned server gotPdu
  | reply index =>
      obtain ⟨⟨c, reply⟩, here, same⟩ := Option.map_eq_some_iff.mp taken
      cases same
      exact .reply index c reply (List.mem_of_getElem? here)
  | job m index action =>
      obtain ⟨server, acted, same⟩ := Option.map_eq_some_iff.mp taken
      cases same
      exact .job m index action server acted

end CseLab.Rpc
