import CseLab.Rpc.RoundTrip

/-! Requests and replies as the two ends see them. Identifiers and procedures
are numbers; as long as they fit in the words of a header nothing is lost. -/

namespace CseLab.Rpc

open ByteMemory

/-! ### `rpc_const` -/

def RpcConst.bind : Nat := 1

def RpcConst.timeoutFailure : Int := -1
def RpcConst.unmarshalArgsFailure : Int := -2
def RpcConst.atmostonceFailure : Int := -4
def RpcConst.oldsrvFailure : Int := -5
def RpcConst.bindFailure : Int := -6
def RpcConst.cancelFailure : Int := -7

/-! ### PDUs -/

structure Request where
  xid : Nat
  proc : Nat
  cltNonce : UInt32
  srvNonce : UInt32
  xidRep : Nat
  args : List UInt8
deriving DecidableEq

structure Reply where
  xid : Nat
  ret : Int
  body : List UInt8
deriving DecidableEq

def Request.header (r : Request) : ReqHeader :=
  { xid := Int32.ofNat r.xid
    proc := Int32.ofNat r.proc
    cltNonce := r.cltNonce
    srvNonce := r.srvNonce
    xidRep := Int32.ofNat r.xidRep }

def Request.ofHeader (h : ReqHeader) (args : List UInt8) : Request :=
  { xid := h.xid.toUInt32.toNat
    proc := h.proc.toUInt32.toNat
    cltNonce := h.cltNonce
    srvNonce := h.srvNonce
    xidRep := h.xidRep.toUInt32.toNat
    args := args }

def Reply.header (r : Reply) : ReplyHeader :=
  { xid := Int32.ofNat r.xid, ret := Int32.ofInt r.ret }

def Reply.ofHeader (h : ReplyHeader) (body : List UInt8) : Reply :=
  { xid := h.xid.toUInt32.toNat, ret := h.ret.toInt, body := body }

theorem toUInt32_ofNat {n : Nat} (fits : n < 2 ^ 32) : (Int32.ofNat n).toUInt32.toNat = n := by
  change (UInt32.ofNat n).toNat = n
  rw [UInt32.toNat_ofNat']
  exact Nat.mod_eq_of_lt fits

theorem Request.ofHeader_header (r : Request) (xid : r.xid < 2 ^ 32) (proc : r.proc < 2 ^ 32)
    (xidRep : r.xidRep < 2 ^ 32) : Request.ofHeader r.header r.args = r := by
  unfold Request.ofHeader Request.header
  rw [toUInt32_ofNat xid, toUInt32_ofNat proc, toUInt32_ofNat xidRep]

theorem Reply.ofHeader_header (r : Reply) (xid : r.xid < 2 ^ 32) (lower : -2 ^ 31 ≤ r.ret)
    (upper : r.ret < 2 ^ 31) : Reply.ofHeader r.header r.body = r := by
  unfold Reply.ofHeader Reply.header
  rw [toUInt32_ofNat xid, Int32.toInt_ofInt_of_le lower upper]

theorem HeaderCodec.arrives {Header : Type} {pack : Marshall → Header → Option Marshall}
    {unpack : Unmarshall → Header × Unmarshall} {bytes : Header → List UInt8}
    (codec : HeaderCodec pack unpack bytes) {m : Marshall} (room : rpcHeaderSz ≤ m.capa)
    (whole : rpcHeaderSz ≤ m.ind) (small : m.ind ≤ 2 ^ 30) (h : Header) :
    ∃ packed, pack m h = some packed ∧ ∀ received : Memory,
      (∀ address, sizeofRpcSz ≤ address → address < packed.ind →
        received address = packed.buf address) →
      (unpack (.start received packed.ind)).1 = h := by
  obtain ⟨packed, ran, sameInd, holds, _others⟩ := codec.packs m h room
  refine ⟨packed, ran, ?_⟩
  intro received same
  have short := codec.fits h
  rw [codec.unpacks (.start received packed.ind) h rfl]
  · change packed.ind ≤ 2 ^ 30
    omega
  · change rpcHeaderSz ≤ packed.ind
    omega
  · exact holds.congr (fun address lower upper => same address lower (by omega))

theorem Request.arrives (r : Request) (xid : r.xid < 2 ^ 32) (proc : r.proc < 2 ^ 32)
    (xidRep : r.xidRep < 2 ^ 32) {m : Marshall} (room : rpcHeaderSz ≤ m.capa)
    (whole : rpcHeaderSz ≤ m.ind) (small : m.ind ≤ 2 ^ 30) :
    ∃ packed, m.packReqHeader r.header = some packed ∧ ∀ received : Memory,
      (∀ address, sizeofRpcSz ≤ address → address < packed.ind →
        received address = packed.buf address) →
      Request.ofHeader (Unmarshall.start received packed.ind).unpackReqHeader.1 r.args = r := by
  obtain ⟨packed, ran, arrives⟩ := reqHeader_codec.arrives room whole small r.header
  refine ⟨packed, ran, ?_⟩
  intro received same
  rw [arrives received same]
  exact r.ofHeader_header xid proc xidRep

theorem Reply.arrives (r : Reply) (xid : r.xid < 2 ^ 32) (lower : -2 ^ 31 ≤ r.ret)
    (upper : r.ret < 2 ^ 31) {m : Marshall} (room : rpcHeaderSz ≤ m.capa)
    (whole : rpcHeaderSz ≤ m.ind) (small : m.ind ≤ 2 ^ 30) :
    ∃ packed, m.packReplyHeader r.header = some packed ∧ ∀ received : Memory,
      (∀ address, sizeofRpcSz ≤ address → address < packed.ind →
        received address = packed.buf address) →
      Reply.ofHeader (Unmarshall.start received packed.ind).unpackReplyHeader.1 r.body = r := by
  obtain ⟨packed, ran, arrives⟩ := replyHeader_codec.arrives room whole small r.header
  refine ⟨packed, ran, ?_⟩
  intro received same
  rw [arrives received same]
  exact r.ofHeader_header xid lower upper

end CseLab.Rpc
