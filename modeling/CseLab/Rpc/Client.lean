import CseLab.Lib.OrderedWindow
import CseLab.Lib.Transition
import CseLab.Rpc.Message

/-! `rpcc`. Each section that holds `m_` is one step: the start of `call1`, its
end, `got_pdu`, `cancel` and the end of `bind`. Between its start and its end a
call transmits its request and waits. -/

namespace CseLab.Rpc

open OrderedWindow

/-! ### `xid_rep_window_` -/

/-- `while (front() + 1 == *it) pop_front()`, on the elements in front of `it`.
Once they are all gone, `*it` is the front itself. -/
def popBefore (it : Nat) : List Nat → List Nat
  | [] => []
  | front :: passed => if front + 1 = it then popBefore it passed else front :: passed

def compressFrom (passed : List Nat) : List Nat → List Nat
  | [] => passed
  | it :: rest => compressFrom (popBefore it passed ++ [it]) rest

/-- `compress`; the iterator starts at the second element. -/
def compress : List Nat → List Nat
  | [] => []
  | front :: rest => compressFrom [front] rest

theorem popBefore_sublist (it : Nat) (passed : List Nat) :
    (popBefore it passed).Sublist passed := by
  induction passed with
  | nil => exact List.Sublist.refl _
  | cons front rest ih =>
      unfold popBefore
      by_cases adjacent : front + 1 = it
      · rw [if_pos adjacent]
        exact ih.cons front
      · rw [if_neg adjacent]

theorem compressFrom_sublist (passed rest : List Nat) :
    (compressFrom passed rest).Sublist (passed ++ rest) := by
  induction rest generalizing passed with
  | nil => exact List.sublist_append_left _ _
  | cons it rest ih =>
      have smaller := ih (popBefore it passed ++ [it])
      rw [List.append_assoc] at smaller
      exact smaller.trans ((popBefore_sublist it passed).append (List.Sublist.refl _))

theorem compressFrom_ne_nil {passed : List Nat} (rest : List Nat) (start : passed ≠ []) :
    compressFrom passed rest ≠ [] := by
  induction rest generalizing passed with
  | nil => exact start
  | cons it rest ih => exact ih (List.append_ne_nil_of_right_ne_nil _ (List.cons_ne_nil _ _))

theorem compress_sublist (xids : List Nat) : (compress xids).Sublist xids := by
  cases xids with
  | nil => exact List.Sublist.refl _
  | cons front rest => exact compressFrom_sublist [front] rest

theorem compress_ne_nil {xids : List Nat} (nonempty : xids ≠ []) : compress xids ≠ [] := by
  cases xids with
  | nil => exact nonempty
  | cons front rest => exact compressFrom_ne_nil rest (List.cons_ne_nil _ _)

/-- `xid_rep_window_`: in order, with repetitions, and never empty. -/
structure XidRepWindow where
  xids : List Nat
  nonempty : xids ≠ []
  sorted : xids.Pairwise (fun a b => a ≤ b)

def XidRepWindow.start : XidRepWindow :=
  { xids := [0], nonempty := List.cons_ne_nil _ _, sorted := List.pairwise_singleton _ _ }

def XidRepWindow.front (w : XidRepWindow) : Nat := w.xids.head w.nonempty

def XidRepWindow.update (w : XidRepWindow) (xid : Nat) : XidRepWindow :=
  if xid ≤ w.front then w
  else
    { xids := compress (insertByKey id xid w.xids)
      nonempty := compress_ne_nil (List.ne_nil_of_mem (mem_insertByKey.mpr (Or.inl rfl)))
      sorted := (insertByKey_sorted id xid w.sorted).sublist (compress_sublist _) }

/-! ### The client -/

structure Caller where
  xid : Nat
  un : List UInt8
  intret : Int
  done : Bool
deriving DecidableEq

/-- `rpcc`, with the callers of `calls_` in the order of their calls. The log
has every xid that `update_xid_rep` was called with. The xids do not wrap: no client
makes 2^32 calls (`CallTable` has the counter of 32 bits). -/
structure Rpcc where
  cltNonce : UInt32
  srvNonce : UInt32
  bindDone : Bool
  xid : Nat
  destroyWait : Bool
  calls : List Caller
  xidRepWindow : XidRepWindow
  retired : List Nat

def Rpcc.start (cltNonce : UInt32) : Rpcc :=
  { cltNonce := cltNonce
    srvNonce := 0
    bindDone := false
    xid := 1
    destroyWait := false
    calls := []
    xidRepWindow := .start
    retired := [] }

def Rpcc.updateXidRep (c : Rpcc) (xid : Nat) : Rpcc :=
  { c with xidRepWindow := c.xidRepWindow.update xid, retired := xid :: c.retired }

def Rpcc.addCall (c : Rpcc) (ca : Caller) : Rpcc :=
  { c with calls := c.calls.filter (fun other => other.xid ≠ ca.xid) ++ [ca] }

def Rpcc.eraseCall (c : Rpcc) (xid : Nat) : Rpcc :=
  { c with calls := c.calls.filter (fun other => other.xid ≠ xid) }

def Rpcc.call1 (c : Rpcc) (proc : Nat) (args : List UInt8) : Except Int (Rpcc × Request) :=
  if (proc ≠ RpcConst.bind ∧ c.bindDone = false) ∨ (proc = RpcConst.bind ∧ c.bindDone = true) then
    .error RpcConst.bindFailure
  else if c.destroyWait then .error RpcConst.cancelFailure
  else
    .ok ({ c with xid := c.xid + 1 }.addCall { xid := c.xid, un := [], intret := 0, done := false },
      { xid := c.xid
        proc := proc
        cltNonce := c.cltNonce
        srvNonce := c.srvNonce
        xidRep := c.xidRepWindow.front
        args := args })

def Caller.result (ca : Caller) : Int × List UInt8 :=
  if ca.done then (ca.intret, ca.un) else (RpcConst.timeoutFailure, ca.un)

def Rpcc.leave (c : Rpcc) (xid : Nat) : Option (Rpcc × Int × List UInt8) :=
  (c.calls.find? (fun ca => ca.xid = xid)).map fun ca =>
    ((c.eraseCall xid).updateXidRep xid, ca.result)

def Caller.takeIn (ca : Caller) (reply : Reply) : Caller :=
  if ca.xid = reply.xid ∧ ca.done = false then
    { ca with un := reply.body, intret := reply.ret, done := true }
  else ca

def Rpcc.gotPdu (c : Rpcc) (reply : Reply) : Rpcc :=
  { c.updateXidRep reply.xid with calls := c.calls.map (fun ca => ca.takeIn reply) }

/-- Cancel all outstanding calls. The loop that follows waits for them to leave. -/
def Rpcc.cancel (c : Rpcc) : Rpcc :=
  { c with
    calls := c.calls.map (fun ca => { ca with done := true, intret := RpcConst.cancelFailure })
    destroyWait := c.destroyWait || !c.calls.isEmpty }

def Rpcc.bound (c : Rpcc) (nonce : UInt32) : Rpcc := { c with bindDone := true, srvNonce := nonce }

inductive RpccAction where
  | call1 (proc : Nat) (args : List UInt8)
  | leave (xid : Nat)
  | gotPdu (reply : Reply)
  | cancel
  | bound (nonce : UInt32)

/-- A client on its own: the replies that arrive are to xids it has issued. -/
def Rpcc.step (c : Rpcc) : RpccAction → Option Rpcc
  | .call1 proc args => some ((c.call1 proc args).toOption.elim c Prod.fst)
  | .leave xid => (c.leave xid).map Prod.fst
  | .gotPdu reply => if 1 ≤ reply.xid ∧ reply.xid < c.xid then some (c.gotPdu reply) else none
  | .cancel => some c.cancel
  | .bound nonce => some (c.bound nonce)

end CseLab.Rpc
