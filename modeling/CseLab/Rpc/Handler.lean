import CseLab.Lib.Interleaving
import CseLab.Rpc.DecodeTarget
import CseLab.Rpc.Exactness
import CseLab.Rpc.Message

/-! The templates around a procedure: `call` marshalls the arguments and takes the
result out of the reply, and the handler that `reg` registers does the reverse
around the method. -/

namespace CseLab.Rpc

open ByteMemory BigEndian Interleaving

/-! ### Arguments -/

def Values : List Ty → Type
  | [] => Unit
  | t :: types => t.Raw × Values types

def Values.Valid : (types : List Ty) → Values types → Prop
  | [], _ => True
  | t :: types, values => t.Valid values.1 ∧ Values.Valid types values.2

def Values.encode : (types : List Ty) → Values types → List UInt8
  | [], _ => []
  | t :: types, values => t.encode values.1 ++ Values.encode types values.2

def marshallValues : (types : List Ty) → Marshall → Values types → Option Marshall
  | [], m, _ => some m
  | t :: types, m, values => do
      let m ← t.marshall m values.1
      marshallValues types m values.2

def unmarshallValues : (types : List Ty) → Unmarshall → Values types × Unmarshall
  | [], u => ((), u)
  | t :: types, u =>
      let (value, u) := t.unmarshall u
      let (values, u) := unmarshallValues types u
      ((value, values), u)

theorem unmarshallValues_nil (u : Unmarshall) : (unmarshallValues [] u).2 = u := rfl

theorem unmarshallValues_cons (t : Ty) (types : List Ty) (u : Unmarshall) :
    (unmarshallValues (t :: types) u).2 = (unmarshallValues types (t.unmarshall u).2).2 := rfl

theorem writes_values (types : List Ty) (values : Values types) :
    Writes (fun m => marshallValues types m values) (Values.encode types values) := by
  induction types with
  | nil => exact Writes.nil
  | cons t types ih => exact (writes_value t values.1).append (ih values.2)

theorem reads_values (types : List Ty) (values : Values types) (valid : Values.Valid types values) :
    Reads (unmarshallValues types) (Values.encode types values) values := by
  induction types with
  | nil => exact Reads.pure values
  | cons t types ih =>
      exact Reads.bind
        (fun value u => ((value, (unmarshallValues types u).1), (unmarshallValues types u).2))
        (reads_value t values.1 valid.1)
        ((ih values.2 valid.2).map (fun rest => (values.1, rest)))

theorem Values.valid (types : List Ty) (canonical : ∀ t ∈ types, t.Canonical)
    (values : Values types) : Values.Valid types values := by
  induction types with
  | nil => trivial
  | cons t types ih =>
      exact ⟨(canonical t List.mem_cons_self).valid values.1,
        ih (fun other member => canonical other (List.mem_cons_of_mem t member)) values.2⟩

def StringsFit (types : List Ty) (u : Unmarshall) : Prop :=
  AllLengths stringFits (fun _ _ => True) (types.map fun t => .value t t.fresh) u

/-- What `reg` is given: a method of an object. It finds memory in which nothing
has been written, and a result variable that it need not set. -/
structure Procedure (Obj Uninit : Type) where
  args : List Ty
  result : Ty
  meth : Uninit → Obj → Values args → result.Raw → Option (Obj × Int × result.Raw)

variable {Obj Uninit : Type}

/-- A method that reaches its object by `act` only, one access after another. -/
structure Handler {Op Answer : Type} (act : Obj → Op → Obj × Answer) (Uninit : Type)
    extends Procedure Obj Uninit where
  script : Uninit → Values args → result.Raw → Script Op Answer (Int × result.Raw)
  alone : ∀ uninit obj values r,
    (script uninit values r).alone act obj = meth uninit obj values r

def Procedure.fn (p : Procedure Obj Uninit) (uninit : Uninit) (obj : Obj) (r : p.result.Raw)
    (args : Unmarshall) (ret : Marshall) : Option (Obj × Int × Marshall) :=
  let (values, args) := unmarshallValues p.args args
  if args.okdone = false then some (obj, RpcConst.unmarshalArgsFailure, ret)
  else do
    let (obj, b, r) ← p.meth uninit obj values r
    let ret ← p.result.marshall ret r
    some (obj, b, ret)

/-- `case NEW` of `dispatch`, up to the reply; `rep` is a fresh `marshall`. -/
def Procedure.dispatch (p : Procedure Obj Uninit) (uninit : Uninit) (obj : Obj)
    (r : p.result.Raw) (h : ReqHeader) (req : Unmarshall) (rep : Marshall) :
    Option (Obj × Marshall) := do
  let (obj, ret, rep) ← p.fn uninit obj r req rep
  if ret = RpcConst.unmarshalArgsFailure ∨ ret < 0 then none
  else
    let rep ← rep.packReplyHeader { xid := h.xid, ret := Int32.ofInt ret }
    some (obj, rep)

/-- A PDU in the buffer that the other end reads it into; the length in front of
it is the channel's. -/
def Marshall.Copied (m : Marshall) (received : Memory) : Prop :=
  ∀ address, sizeofRpcSz ≤ address → address < m.ind → received address = m.buf address

/-- A call from its stub to the method and back, through two connections that copy
what is sent. The client has `target` for the result. -/
def Procedure.remote (p : Procedure Obj Uninit) (request reply : Memory)
    (there back : Marshall → Memory) (h : ReqHeader) (uninit : Uninit) (obj : Obj)
    (values : Values p.args) (r target : p.result.Raw) : Option (Obj × Int × p.result.Raw) := do
  let req ← marshallValues p.args (.start request) values
  let req ← req.packReqHeader h
  let (received, args) := (Unmarshall.start (there req) req.ind).unpackReqHeader
  let (obj, rep) ← p.dispatch uninit obj r received args (.start reply)
  let rh := (Unmarshall.start (back rep) rep.ind).unpackReplyHeader.1
  if rh.xid = h.xid then do
    let (intret, target) ← callM p.result rh.ret.toInt (.takeIn (back rep) rep.ind) target
    some (obj, intret, target)
  else none

/-- The message behind a header is the arguments and nothing else. -/
structure Unmarshall.Brings (u : Unmarshall) (types : List Ty) (values : Values types) : Prop where
  ok : u.ok = true
  small : u.sz ≤ 2 ^ 30
  whole : u.ind + (Values.encode types values).length = u.sz
  holds : Holds u.buf u.ind (Values.encode types values)

theorem Unmarshall.Brings.read {u : Unmarshall} {types : List Ty} {values : Values types}
    (brings : u.Brings types values) (valid : Values.Valid types values) :
    unmarshallValues types u = (values, { u with ind := u.sz }) := by
  have read := reads_values types values valid u brings.ok brings.small brings.whole.le brings.holds
  rw [brings.whole] at read
  exact read

theorem Procedure.fn_brought (p : Procedure Obj Uninit) (uninit : Uninit) (obj : Obj)
    (r : p.result.Raw) {values : Values p.args} (valid : Values.Valid p.args values)
    {args : Unmarshall} (brings : args.Brings p.args values) (ret : Marshall) :
    p.fn uninit obj r args ret = (p.meth uninit obj values r).bind fun (obj, b, r) =>
      (p.result.marshall ret r).map fun ret => (obj, b, ret) := by
  have done : ({ args with ind := args.sz } : Unmarshall).okdone = true := by
    unfold Unmarshall.okdone
    rw [brings.ok, beq_self_eq_true]
    rfl
  unfold Procedure.fn
  rw [brings.read valid]
  dsimp only
  rw [done, if_neg Bool.noConfusion]
  refine Option.bind_congr fun result _given => ?_
  rw [Option.map_eq_bind]
  rfl

theorem Values.exists_arguments (types : List Ty) (values : Values types)
    (valid : Values.Valid types values) :
    ∃ arguments : List Argument, encodeArguments arguments = Values.encode types values := by
  induction types with
  | nil => exact ⟨[], rfl⟩
  | cons t types ih =>
      obtain ⟨arguments, same⟩ := ih values.2 valid.2
      refine ⟨⟨t, ⟨values.1, valid.1⟩⟩ :: arguments, ?_⟩
      unfold Values.encode
      rw [← same]
      rfl

theorem HeaderCodec.brings {Header : Type} {pack : Marshall → Header → Option Marshall}
    {unpack : Unmarshall → Header × Unmarshall} {bytes : Header → List UInt8}
    (codec : HeaderCodec pack unpack bytes) (uninit : Memory)
    {write : Marshall → Option Marshall} {arguments : List Argument}
    (writes : Writes write (encodeArguments arguments))
    (total : rpcHeaderSz + (encodeArguments arguments).length ≤ 2 ^ 30) (h : Header) :
    ∃ body pdu, write (.start uninit) = some body ∧ pack body h = some pdu ∧
      pdu.ind = rpcHeaderSz + (encodeArguments arguments).length ∧
      ∀ received, pdu.Copied received →
        unpack (.start received pdu.ind) =
          (h, { Unmarshall.start received pdu.ind with ind := rpcHeaderSz }) ∧
        Holds received rpcHeaderSz (encodeArguments arguments) := by
  have room : rpcHeaderSz ≤ defaultRpcSz := by decide
  obtain ⟨body, ran, appended⟩ := writes (.start uninit) room room total
  have header : rpcHeaderSz ≤ body.capa := room.trans appended.grows
  obtain ⟨pdu, packs, sameInd, holds, -⟩ := codec.packs body h header
  have size : pdu.ind = rpcHeaderSz + (encodeArguments arguments).length :=
    sameInd.trans appended.ind_eq
  refine ⟨body, pdu, ran, packs, size, ?_⟩
  intro received copied
  obtain ⟨-, arrived⟩ := codec.body_arrives appended rfl header packs copied
  have short := codec.fits h
  refine ⟨codec.unpacks (.start received pdu.ind) h rfl ?_ ?_ ?_, arrived⟩
  · change pdu.ind ≤ 2 ^ 30
    rw [size]
    exact total
  · change rpcHeaderSz ≤ pdu.ind
    rw [size]
    exact Nat.le_add_right _ _
  · exact holds.congr (fun address lower upper => copied address lower (by omega))

theorem request_brings (uninit : Memory) {types : List Ty} {values : Values types}
    (valid : Values.Valid types values)
    (total : rpcHeaderSz + (Values.encode types values).length ≤ 2 ^ 30) (h : ReqHeader) :
    ∃ body pdu, marshallValues types (.start uninit) values = some body ∧
      body.packReqHeader h = some pdu ∧ ∀ received, pdu.Copied received →
        ∃ args, (Unmarshall.start received pdu.ind).unpackReqHeader = (h, args) ∧
          args.Brings types values := by
  obtain ⟨arguments, encoded⟩ := Values.exists_arguments types values valid
  have writes := writes_values types values
  rw [← encoded] at writes total
  obtain ⟨body, pdu, ran, packs, size, arrives⟩ := reqHeader_codec.brings uninit writes total h
  refine ⟨body, pdu, ran, packs, ?_⟩
  intro received copied
  obtain ⟨unpacked, holds⟩ := arrives received copied
  rw [encoded] at size holds total
  refine ⟨_, unpacked, rfl, ?_, size.symm, holds⟩
  change pdu.ind ≤ 2 ^ 30
  rw [size]
  exact total

theorem reply_brings (uninit : Memory) {t : Ty} (sent : t.Value)
    (total : rpcHeaderSz + (t.encode sent.1).length ≤ 2 ^ 30) (h : ReplyHeader) :
    ∃ body pdu, t.marshall (.start uninit) sent.1 = some body ∧
      body.packReplyHeader h = some pdu ∧ ∀ received, pdu.Copied received →
        (Unmarshall.start received pdu.ind).unpackReplyHeader.1 = h ∧
          (Unmarshall.takeIn received pdu.ind).Carries t sent := by
  have encoded : encodeArguments [⟨t, sent⟩] = t.encode sent.1 := List.append_nil _
  have writes := writes_value t sent.1
  rw [← encoded] at writes total
  obtain ⟨body, pdu, ran, packs, size, arrives⟩ := replyHeader_codec.brings uninit writes total h
  refine ⟨body, pdu, ran, packs, ?_⟩
  intro received copied
  obtain ⟨unpacked, holds⟩ := arrives received copied
  rw [encoded] at size holds total
  refine ⟨congrArg Prod.fst unpacked, ?_, ?_, size.symm, holds⟩
  · apply decide_eq_true
    rw [size]
    exact Nat.le_add_right _ _
  · change pdu.ind ≤ 2 ^ 30
    rw [size]
    exact total

/-! ### The call -/

/-- What is asked of a method for its result to fit in a reply. -/
def Procedure.Fits (p : Procedure Obj Uninit) (uninit : Uninit) (obj : Obj)
    (values : Values p.args) (r : p.result.Raw) : Prop :=
  ∀ after b result, p.meth uninit obj values r = some (after, b, result) →
    b < 2 ^ 31 ∧ p.result.Valid result ∧ rpcHeaderSz + (p.result.encode result).length ≤ 2 ^ 30

/-- A call through the stub, the connections and the handler is a call of the
method, for any state of the object; where the method fails the server aborts. -/
theorem remote_call (p : Procedure Obj Uninit) (request reply : Memory)
    {there back : Marshall → Memory} (thereCopies : ∀ m : Marshall, m.Copied (there m))
    (backCopies : ∀ m : Marshall, m.Copied (back m)) (h : ReqHeader) (uninit : Uninit) (obj : Obj)
    {values : Values p.args} (valid : Values.Valid p.args values)
    (total : rpcHeaderSz + (Values.encode p.args values).length ≤ 2 ^ 30)
    {r target : p.result.Raw} (fits : p.Fits uninit obj values r)
    (empty : p.result.Appends → target = p.result.fresh) :
    p.remote request reply there back h uninit obj values r target =
      (p.meth uninit obj values r).filter (fun result => decide (0 ≤ result.2.1)) := by
  obtain ⟨body, pdu, ran, packs, arrives⟩ := request_brings request valid total h
  obtain ⟨args, unpacked, brings⟩ := arrives (there pdu) (thereCopies pdu)
  have called := p.fn_brought uninit obj r valid brings (.start reply)
  unfold Procedure.remote Procedure.dispatch
  rw [ran, Option.bind_eq_bind, Option.bind_some, packs]
  dsimp only [Option.bind_eq_bind, Option.bind_some]
  rw [unpacked]
  dsimp only
  rw [called]
  cases given : p.meth uninit obj values r with
  | none => rfl
  | some result =>
      obtain ⟨after, b, sent⟩ := result
      obtain ⟨upper, validSent, short⟩ := fits after b sent given
      obtain ⟨rep, replied, ranReply, packsReply, carried⟩ := reply_brings reply ⟨sent, validSent⟩
        short { xid := h.xid, ret := Int32.ofInt b }
      obtain ⟨header, carries⟩ := carried (back replied) (backCopies replied)
      simp only [Option.bind_some, ranReply, Option.map_some]
      by_cases negative : b < 0
      · rw [if_pos (Or.inr negative), Option.filter_some_neg]
        · rfl
        · simpa using negative
      · have result : ¬(b = RpcConst.unmarshalArgsFailure ∨ b < 0) := by
          rintro (rfl | below)
          · exact negative (by decide)
          · exact negative below
        have same : (Int32.ofInt b).toInt = b :=
          Int32.toInt_ofInt_of_le (by omega) upper
        rw [if_neg result, packsReply]
        simp only [Option.bind_some, header, same, if_true]
        rw [(callM_sent carries (Int.not_lt.mp negative) target).mpr empty, Option.filter_some_pos]
        · rfl
        · simpa using negative

/-! ### What a handler accepts -/

end CseLab.Rpc
