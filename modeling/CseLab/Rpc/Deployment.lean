import CseLab.Rpc.Agreement
import CseLab.Rpc.Handler

/-! A network whose servers have objects behind them. The handler of a job reaches the
object of its instance one access after another, and `dispatch` takes no lock around it:
the accesses of the handlers of one instance may fall in any order. The history has the
calls, the ends of the handlers and the returns in the order in which they happen. -/

namespace CseLab.Rpc

open ByteMemory BigEndian Interleaving

variable {Obj Op Answer Uninit : Type} {act : Obj → Op → Obj × Answer}

/-! ### Execution -/

def rpcbind (nonce : UInt32) : Procedure Obj Uninit where
  args := [.int]
  result := .int
  meth := fun _ obj _ _ => some (obj, 0, nonce.toInt32)

def rpcbindHandler (act : Obj → Op → Obj × Answer) (nonce : UInt32) : Handler act Uninit where
  toProcedure := rpcbind nonce
  script := fun _ _ _ => .ret (0, nonce.toInt32)
  alone := fun _ _ _ _ => rfl

/-- What a handler finds in memory: what its method finds, its result variable of
each type, and the buffer of the reply. -/
structure Found (Uninit : Type) where
  uninit : Uninit
  r : (t : Ty) → t.Raw
  heap : Memory

/-- The arguments of a request, behind room for the header. -/
def Request.message (request : Request) : Unmarshall :=
  .takeIn (fun address => request.args[address - rpcHeaderSz]?.getD 0)
    (rpcHeaderSz + request.args.length)

def Marshall.body (m : Marshall) : List UInt8 :=
  (List.range (m.ind - rpcHeaderSz)).map fun k => m.buf (rpcHeaderSz + k)

theorem Appended.body {start after : Marshall} {bytes : List UInt8}
    (appended : Appended start bytes after) (first : start.ind = rpcHeaderSz) :
    after.body = bytes := by
  have size : after.ind - rpcHeaderSz = bytes.length := by
    rw [appended.ind_eq, first, Nat.add_sub_cancel_left]
  unfold Marshall.body
  rw [size]
  apply List.ext_getElem
  · rw [List.length_map, List.length_range]
  · intro k _left below
    have holds := appended.holds k below
    rw [first, List.getElem?_eq_getElem below, Option.getD_some] at holds
    rw [List.getElem_map, List.getElem_range, holds]

/-- The call of `fn` in `dispatch` and the assertions behind it. -/
def Procedure.execute (p : Procedure Obj Uninit) (found : Found Uninit) (obj : Obj)
    (request : Request) : Option (Obj × Int × List UInt8) := do
  let (obj, ret, rep) ←
    p.fn found.uninit obj (found.r p.result) request.message (.start found.heap)
  if ret = RpcConst.unmarshalArgsFailure ∨ ret < 0 then none else some (obj, ret, rep.body)

/-- That call, access by access. -/
def Handler.execute (h : Handler act Uninit) (found : Found Uninit) (request : Request) :
    Script Op Answer (Int × List UInt8) :=
  let (values, args) := unmarshallValues h.args request.message
  if args.okdone = false then .fail
  else do
    let (ret, r) ← h.script found.uninit values (found.r h.result)
    let rep ← Script.ofOption (h.result.marshall (.start found.heap) r)
    if ret = RpcConst.unmarshalArgsFailure ∨ ret < 0 then .fail else return (ret, rep.body)

theorem Handler.alone_execute (h : Handler act Uninit) (found : Found Uninit) (request : Request)
    (obj : Obj) :
    (h.execute found request).alone act obj = h.toProcedure.execute found obj request := by
  unfold Handler.execute Procedure.execute Procedure.fn
  dsimp only
  by_cases unread : (unmarshallValues h.args request.message).2.okdone = false
  · rw [if_pos unread, if_pos unread]
    rfl
  · rw [if_neg unread, if_neg unread, Script.alone_bind, h.alone]
    cases h.meth found.uninit obj (unmarshallValues h.args request.message).1
        (found.r h.result) with
    | none => rfl
    | some result =>
        simp only [Option.bind_some, Option.bind_eq_bind, Script.alone_bind, Script.alone_ofOption]
        cases h.result.marshall (.start found.heap) result.2.2 with
        | none => rfl
        | some rep =>
            simp only [Option.map_some, Option.bind_some]
            split <;> rfl

/-- A handler that returns without an assertion has read its arguments and called its
method, and the reply is the result. -/
theorem Procedure.execute_some {p : Procedure Obj Uninit} {found : Found Uninit} {obj after : Obj}
    {request : Request} {ret : Int} {body : List UInt8}
    (executes : p.execute found obj request = some (after, ret, body))
    (fits : ∀ values, p.Fits found.uninit obj values (found.r p.result)) :
    (unmarshallValues p.args request.message).2.okdone = true ∧
      ∃ result, p.meth found.uninit obj (unmarshallValues p.args request.message).1
          (found.r p.result) = some (after, ret, result) ∧
        body = p.result.encode result := by
  obtain ⟨⟨given, b, rep⟩, called, rest⟩ := Option.bind_eq_some_iff.mp executes
  obtain ⟨valid, same⟩ := Option.ite_none_left_eq_some.mp rest
  cases same
  unfold Procedure.fn at called
  dsimp only at called
  by_cases unread : (unmarshallValues p.args request.message).2.okdone = false
  · rw [if_pos unread] at called
    cases called
    exact absurd (Or.inl rfl) valid
  · rw [if_neg unread] at called
    refine ⟨Bool.not_eq_false _ ▸ unread, ?_⟩
    obtain ⟨⟨given, b, result⟩, method, rest⟩ := Option.bind_eq_some_iff.mp called
    obtain ⟨rep, marshalled, same⟩ := Option.bind_eq_some_iff.mp rest
    cases same
    obtain ⟨-, -, short⟩ := fits _ _ _ _ method
    have room : rpcHeaderSz ≤ defaultRpcSz := by decide
    obtain ⟨written, ran, appended⟩ :=
      writes_value p.result result (.start found.heap) room room short
    cases ran.symm.trans marshalled
    exact ⟨result, method, appended.body rfl⟩

/-- `procs_` of an instance: its constructor registers `rpcbind`. -/
def registered (service : Nat → Option (Handler act Uninit)) (m : UInt32) (proc : Nat) :
    Option (Handler act Uninit) :=
  if proc = RpcConst.bind then some (rpcbindHandler act m) else service proc

/-! ### The deployment -/

inductive Event (Uninit : Type) where
  | called (request : Request)
  | executed (m : UInt32) (request : Request) (found : Found Uninit) (ret : Int)
      (body : List UInt8)
  | returned (r : Returned)

/-- The network, the object of each instance, the handlers that its jobs are in, and what
has happened so far. -/
structure Deployment (Obj Op Answer Uninit : Type) where
  network : Network
  objects : UInt32 → Obj
  running : UInt32 → Nat → Option (Found Uninit × Script Op Answer (Int × List UInt8))
  history : List (Event Uninit)

def Deployment.start (service : Nat → Option (Handler act Uninit)) (obj : Obj) :
    Deployment Obj Op Answer Uninit :=
  { network := .start fun proc => (service proc).isSome
    objects := fun _ => obj
    running := fun _ _ => none
    history := [] }

inductive DeploymentAction (Uninit : Type) where
  | network (action : NetworkAction)
  | enter (m : UInt32) (index : Nat) (found : Found Uninit)
  | access (m : UInt32) (index : Nat)
  | handle (m : UInt32) (index : Nat)

def Network.events (s : Network) : NetworkAction → List (Event Uninit)
  | .call n proc args =>
      match (s.clients n).call1 proc args with
      | .error _ => []
      | .ok (_, request) => [.called request]
  | .leave n xid =>
      match (s.clients n).leave xid with
      | none => []
      | some (_, ret, body) => [.returned { cltNonce := n, xid := xid, ret := ret, body := body }]
  | .cancel _ | .bind _ | .request _ _ _ | .reply _ | .job _ _ _ => []

def NetworkAction.handles : NetworkAction → Bool
  | .job _ _ (.handle _ _) => true
  | _ => false

def Deployment.setRunning (d : Deployment Obj Op Answer Uninit) (m : UInt32) (index : Nat)
    (script : Option (Found Uninit × Script Op Answer (Int × List UInt8))) :
    Deployment Obj Op Answer Uninit :=
  { d with running := Function.update d.running m (Function.update (d.running m) index script) }

section SetRunning

variable (d : Deployment Obj Op Answer Uninit) (m : UInt32) (index : Nat)
  (script : Option (Found Uninit × Script Op Answer (Int × List UInt8)))

@[simp]
theorem Deployment.setRunning_self : (d.setRunning m index script).running m index = script := by
  unfold Deployment.setRunning
  dsimp only
  rw [Function.update_self, Function.update_self]

theorem Deployment.setRunning_job {other : Nat} (apart : other ≠ index) :
    (d.setRunning m index script).running m other = d.running m other := by
  unfold Deployment.setRunning
  dsimp only
  rw [Function.update_self, Function.update_of_ne apart]

theorem Deployment.setRunning_instance {other : UInt32} (apart : other ≠ m) :
    (d.setRunning m index script).running other = d.running other :=
  Function.update_of_ne apart _ _

end SetRunning

def Deployment.step (service : Nat → Option (Handler act Uninit))
    (d : Deployment Obj Op Answer Uninit) :
    DeploymentAction Uninit → Option (Deployment Obj Op Answer Uninit)
  | .network action =>
      if action.handles then none
      else (d.network.step action).map fun network =>
        { d with network := network, history := d.history ++ d.network.events action }
  | .enter m index found => do
      -- `proc_[h.proc]->fn`, of a job that is about to call it
      let job ← (d.network.servers m).jobs[index]?
      let h ← registered service m job.request.proc
      if job.phase = .running ∧ (d.running m index).isNone then
        some (d.setRunning m index (some (found, h.execute found job.request)))
      else none
  | .access m index =>
      match d.running m index with
      | some (found, .call op next) =>
          let (obj, answer) := act (d.objects m) op
          some
            { d.setRunning m index (some (found, next answer)) with
              objects := Function.update d.objects m obj }
      | _ => none
  | .handle m index =>
      match d.running m index with
      | some (found, .ret (ret, body)) => do
          let job ← (d.network.servers m).jobs[index]?
          let network ← d.network.step (.job m index (.handle ret body))
          some
            { d.setRunning m index none with
              network := network
              history := d.history ++ [.executed m job.request found ret body] }
      | _ => none

/-- A handler is called only when no other of its instance is in progress. -/
def Deployment.Apart (d : Deployment Obj Op Answer Uninit) : DeploymentAction Uninit → Prop
  | .enter m _ _ => ∀ other, other < (d.network.servers m).jobs.length → d.running m other = none
  | .network _ | .access _ _ | .handle _ _ => True

instance (d : Deployment Obj Op Answer Uninit) (action : DeploymentAction Uninit) :
    Decidable (d.Apart action) :=
  match action with
  | .enter m _ _ =>
      decidable_of_iff
        (∀ other, other < (d.network.servers m).jobs.length → (d.running m other).isNone = true)
        (forall₂_congr fun _ _ => Option.isNone_iff_eq_none)
  | .network _ => inferInstanceAs (Decidable True)
  | .access _ _ => inferInstanceAs (Decidable True)
  | .handle _ _ => inferInstanceAs (Decidable True)

inductive Deployment.Steps (service : Nat → Option (Handler act Uninit))
    (d : Deployment Obj Op Answer Uninit) :
    DeploymentAction Uninit → Deployment Obj Op Answer Uninit → Prop
  | network (action : NetworkAction) (plain : action.handles = false) (network : Network)
      (taken : d.network.step action = some network) :
      Steps service d (.network action)
        { d with network := network, history := d.history ++ d.network.events action }
  | enter (m : UInt32) (index : Nat) (found : Found Uninit) (job : Job)
      (here : (d.network.servers m).jobs[index]? = some job) (h : Handler act Uninit)
      (handler : registered service m job.request.proc = some h) (phase : job.phase = .running)
      (free : d.running m index = none) :
      Steps service d (.enter m index found)
        (d.setRunning m index (some (found, h.execute found job.request)))
  | access (m : UInt32) (index : Nat) (found : Found Uninit) (op : Op)
      (next : Answer → Script Op Answer (Int × List UInt8))
      (here : d.running m index = some (found, .call op next)) :
      Steps service d (.access m index)
        { d.setRunning m index (some (found, next (act (d.objects m) op).2)) with
          objects := Function.update d.objects m (act (d.objects m) op).1 }
  | handle (m : UInt32) (index : Nat) (found : Found Uninit) (ret : Int) (body : List UInt8)
      (returns : d.running m index = some (found, .ret (ret, body))) (job : Job)
      (here : (d.network.servers m).jobs[index]? = some job) (network : Network)
      (taken : d.network.step (.job m index (.handle ret body)) = some network) :
      Steps service d (.handle m index)
        { d.setRunning m index none with
          network := network
          history := d.history ++ [.executed m job.request found ret body] }

theorem Deployment.step_cases {service : Nat → Option (Handler act Uninit)}
    {d next : Deployment Obj Op Answer Uninit} {action : DeploymentAction Uninit}
    (taken : d.step service action = some next) : d.Steps service action next := by
  cases action with
  | network action =>
      obtain ⟨plain, ran⟩ := Option.ite_none_left_eq_some.mp taken
      obtain ⟨network, stepped, same⟩ := Option.map_eq_some_iff.mp ran
      cases same
      exact .network action (Bool.not_eq_true _ ▸ plain) network stepped
  | enter m index found =>
      obtain ⟨job, here, rest⟩ := Option.bind_eq_some_iff.mp taken
      obtain ⟨h, handler, rest⟩ := Option.bind_eq_some_iff.mp rest
      obtain ⟨⟨phase, free⟩, same⟩ := Option.ite_none_right_eq_some.mp rest
      cases same
      exact .enter m index found job here h handler phase (Option.isNone_iff_eq_none.mp free)
  | access m index =>
      dsimp only [Deployment.step] at taken
      split at taken
      · rename_i found op next here
        cases taken
        exact .access m index found op next here
      · cases taken
  | handle m index =>
      dsimp only [Deployment.step] at taken
      split at taken
      · rename_i found ret body returns
        obtain ⟨job, here, rest⟩ := Option.bind_eq_some_iff.mp taken
        obtain ⟨network, stepped, same⟩ := Option.bind_eq_some_iff.mp rest
        cases same
        exact .handle m index found ret body returns job here network stepped
      · cases taken

end CseLab.Rpc
