import CseLab.Rpc.Wire

/-! What is marshalled comes back: the header goes in front of the body into the
room left for it, and the message is read in the order it was written. -/

namespace CseLab.Rpc

open ByteMemory BigEndian

/-! ### Arguments -/

def encodeArguments (arguments : List Argument) : List UInt8 :=
  arguments.flatMap (fun argument => argument.type.encode argument.value.1)

theorem writes_arguments (arguments : List Argument) :
    Writes (fun m => marshallArguments m arguments) (encodeArguments arguments) :=
  writes_foldlM arguments (fun argument _member => writes_value argument.type argument.value.1)

theorem reads_arguments (arguments : List Argument) :
    Reads (unmarshallArguments (arguments.map Argument.type)) (encodeArguments arguments)
      (arguments.map (fun argument => ⟨argument.type, argument.value.1⟩)) := by
  induction arguments with
  | nil => exact Reads.pure []
  | cons argument rest ih =>
      exact Reads.bind
        (fun value u => (⟨argument.type, value⟩ ::
          (unmarshallArguments (rest.map Argument.type) u).1,
          (unmarshallArguments (rest.map Argument.type) u).2))
        (reads_value argument.type argument.value.1 argument.value.2)
        (ih.map (fun values => ⟨argument.type, argument.value.1⟩ :: values))

/-! ### Headers -/

/-- A header goes into the room in front of the body, past the length word, and
comes out of it again. -/
structure HeaderCodec {Header : Type} (pack : Marshall → Header → Option Marshall)
    (unpack : Unmarshall → Header × Unmarshall) (bytes : Header → List UInt8) : Prop where
  fits : ∀ h, sizeofRpcSz + (bytes h).length ≤ rpcHeaderSz
  packs : ∀ (m : Marshall) h, rpcHeaderSz ≤ m.capa → ∃ packed, pack m h = some packed ∧
    packed.ind = m.ind ∧ Holds packed.buf sizeofRpcSz (bytes h) ∧
    ∀ address, address < sizeofRpcSz ∨ rpcHeaderSz ≤ address →
      packed.buf address = m.buf address
  unpacks : ∀ (u : Unmarshall) h, u.ok = true → u.sz ≤ 2 ^ 30 → rpcHeaderSz ≤ u.sz →
    Holds u.buf sizeofRpcSz (bytes h) → unpack u = (h, { u with ind := rpcHeaderSz })

def ReqHeader.bytes (h : ReqHeader) : List UInt8 :=
  bytes32 h.xid.toUInt32 ++ (bytes32 h.proc.toUInt32 ++ (bytes32 h.cltNonce ++
    (bytes32 h.srvNonce ++ bytes32 h.xidRep.toUInt32)))

def ReplyHeader.bytes (h : ReplyHeader) : List UInt8 :=
  bytes32 h.xid.toUInt32 ++ bytes32 h.ret.toUInt32

private theorem packed_room {m : Marshall} {write : Marshall → Option Marshall}
    {bytes : List UInt8} (writes : Writes write bytes) (header : rpcHeaderSz ≤ m.capa)
    (fits : sizeofRpcSz + bytes.length ≤ rpcHeaderSz) :
    ∃ packed, (write { m with ind := sizeofRpcSz }).bind
        (fun packed => some { packed with ind := m.ind }) = some packed ∧
      packed.ind = m.ind ∧ Holds packed.buf sizeofRpcSz bytes ∧
      ∀ address, address < sizeofRpcSz ∨ rpcHeaderSz ≤ address →
        packed.buf address = m.buf address := by
  change 24 ≤ m.capa at header
  change 4 + bytes.length ≤ 24 at fits
  have lengthFits : 4 ≤ m.capa := by omega
  have sizeFits : 4 + bytes.length ≤ 2 ^ 30 := by omega
  obtain ⟨packed, ran, appended⟩ := writes { m with ind := sizeofRpcSz } lengthFits header sizeFits
  refine ⟨{ packed with ind := m.ind }, by rw [ran]; rfl, rfl, appended.holds, ?_⟩
  intro address outside
  change address < 4 ∨ 24 ≤ address at outside
  apply appended.others
  change address < 4 ∨ 4 + bytes.length ≤ address
  omega

theorem reqHeader_codec :
    HeaderCodec Marshall.packReqHeader Unmarshall.unpackReqHeader ReqHeader.bytes where
  fits := fun _h => Nat.le_refl _
  packs := by
    intro m h header
    have writes := (writes_word h.xid.toUInt32).append ((writes_word h.proc.toUInt32).append
      ((writes_word h.cltNonce.toInt32.toUInt32).append
        ((writes_word h.srvNonce.toInt32.toUInt32).append (writes_word h.xidRep.toUInt32))))
    have packed := packed_room writes header (Nat.le_refl _)
    simp only [Option.bind_assoc] at packed
    exact packed
  unpacks := by
    intro u h ok small room holds
    unfold ReqHeader.bytes at holds
    rw [holds_append, holds_append, holds_append, holds_append] at holds
    obtain ⟨holds0, holds1, holds2, holds3, holds4⟩ := holds
    have bound : 24 ≤ u.sz := room
    have word : ∀ (k : Nat) (x : UInt32), k + 4 ≤ 20 → Holds u.buf (sizeofRpcSz + k) (bytes32 x) →
        { u with ind := sizeofRpcSz + k : Unmarshall }.word =
          (x, { u with ind := sizeofRpcSz + (k + 4) }) :=
      fun k x below here => @word_at { u with ind := sizeofRpcSz } k x ok small
        (by change 4 + (k + 4) ≤ u.sz; omega) here
    have first := word 0 _ (by omega) holds0
    have second := word 4 _ (by omega) holds1
    have third := word 8 _ (by omega) holds2
    have fourth := word 12 _ (by omega) holds3
    have fifth := word 16 _ (by omega) holds4
    simp only [Nat.add_zero, Nat.reduceAdd] at first second third fourth fifth
    unfold Unmarshall.unpackReqHeader Unmarshall.unpack
    simp only [first, second, third, fourth, fifth]
    rfl

theorem replyHeader_codec :
    HeaderCodec Marshall.packReplyHeader Unmarshall.unpackReplyHeader ReplyHeader.bytes where
  fits := fun _h => show 4 + 8 ≤ 24 by omega
  packs := by
    intro m h header
    have writes := (writes_word h.xid.toUInt32).append (writes_word h.ret.toUInt32)
    have headerFits : 4 + 8 ≤ 24 := by omega
    have packed := packed_room writes header headerFits
    simp only [Option.bind_assoc] at packed
    exact packed
  unpacks := by
    intro u h ok small room holds
    unfold ReplyHeader.bytes at holds
    rw [holds_append] at holds
    have bound : 24 ≤ u.sz := room
    have first := @word_at { u with ind := sizeofRpcSz } 0 _ ok small
      (by change 4 + (0 + 4) ≤ u.sz; omega) holds.1
    have second := @word_at { u with ind := sizeofRpcSz } 4 _ ok small
      (by change 4 + (4 + 4) ≤ u.sz; omega) holds.2
    simp only [Nat.add_zero, Nat.reduceAdd] at first second
    unfold Unmarshall.unpackReplyHeader Unmarshall.unpack
    simp only [first, second]
    rfl

/-! ### Messages -/

/-- A header packed in front of a marshalled body: it stays clear of the body
and of the length word, and whatever arrives with the same bytes behind that
word is unmarshalled to the header and the arguments, with nothing left over. -/
def Survives {Header : Type} (pack : Marshall → Header → Option Marshall)
    (unpack : Unmarshall → Header × Unmarshall) (body : Marshall) (arguments : List Argument)
    (h : Header) : Prop :=
  ∃ packed, pack body h = some packed ∧ packed.ind = body.ind ∧
    (∀ address, address < sizeofRpcSz ∨ rpcHeaderSz ≤ address →
      packed.buf address = body.buf address) ∧
    ∀ received : Memory,
      (∀ address, sizeofRpcSz ≤ address → address < packed.ind →
        received address = packed.buf address) →
      ∃ headed final, unpack (.start received packed.ind) = (h, headed) ∧
        unmarshallArguments (arguments.map Argument.type) headed =
          (arguments.map (fun argument => ⟨argument.type, argument.value.1⟩), final) ∧
        final.okdone = true

theorem HeaderCodec.body_arrives {Header : Type} {pack : Marshall → Header → Option Marshall}
    {unpack : Unmarshall → Header × Unmarshall} {bytes : Header → List UInt8}
    (codec : HeaderCodec pack unpack bytes) {start body packed : Marshall}
    {arguments : List Argument}
    (appended : Appended start (encodeArguments arguments) body) (first : start.ind = rpcHeaderSz)
    (header : rpcHeaderSz ≤ body.capa) {h : Header} (ran : pack body h = some packed)
    {received : Memory} (same : ∀ address, sizeofRpcSz ≤ address → address < packed.ind →
      received address = packed.buf address) :
    packed.ind = rpcHeaderSz + (encodeArguments arguments).length ∧
      Holds received rpcHeaderSz (encodeArguments arguments) := by
  have size := appended.ind_eq
  rw [first] at size
  obtain ⟨_other, ran', sameInd, _holds, others⟩ := codec.packs body h header
  cases ran.symm.trans ran'
  have holdsBody := appended.holds
  rw [first] at holdsBody
  refine ⟨sameInd.trans size, holdsBody.congr ?_⟩
  intro address lower upper
  have behindLength : sizeofRpcSz ≤ rpcHeaderSz := by decide
  rw [same address (behindLength.trans lower) (by omega)]
  exact others address (Or.inr lower)

private theorem survives {Header : Type} {pack : Marshall → Header → Option Marshall}
    {unpack : Unmarshall → Header × Unmarshall} {bytes : Header → List UInt8}
    (codec : HeaderCodec pack unpack bytes) {start body : Marshall} {arguments : List Argument}
    (appended : Appended start (encodeArguments arguments) body) (first : start.ind = rpcHeaderSz)
    (header : rpcHeaderSz ≤ body.capa)
    (total : rpcHeaderSz + (encodeArguments arguments).length ≤ 2 ^ 30) (h : Header) :
    Survives pack unpack body arguments h := by
  have size := appended.ind_eq
  rw [first] at size
  have short := codec.fits h
  obtain ⟨packed, ran, sameInd, holdsHeader, others⟩ := codec.packs body h header
  refine ⟨packed, ran, sameInd, others, ?_⟩
  intro received same
  obtain ⟨-, bodyHolds⟩ := codec.body_arrives appended first header ran same
  rw [sameInd] at same ⊢
  have sizeFits : body.ind ≤ 2 ^ 30 := by omega
  have pastHeader : rpcHeaderSz ≤ body.ind := by omega
  have unpacked := codec.unpacks (.start received body.ind) h rfl sizeFits pastHeader
    (holdsHeader.congr (fun address lower upper => same address lower (by omega)))
  have encodedFits : rpcHeaderSz + (encodeArguments arguments).length ≤ body.ind := by omega
  have read := reads_arguments arguments
    { (Unmarshall.start received body.ind) with ind := rpcHeaderSz } rfl sizeFits
    encodedFits bodyHolds
  refine ⟨_, _, unpacked, read, ?_⟩
  unfold Unmarshall.okdone
  change (true && (rpcHeaderSz + (encodeArguments arguments).length == body.ind)) = true
  rw [← size, beq_self_eq_true]
  rfl

/-- Values marshalled in order behind a header of either kind come back, header
and values, from any copy of the message. -/
theorem message_round_trip (uninit : Memory) (arguments : List Argument)
    (total : rpcHeaderSz + (encodeArguments arguments).length ≤ 2 ^ 30) :
    ∃ body, marshallArguments (.start uninit) arguments = some body ∧
      body.ind = rpcHeaderSz + (encodeArguments arguments).length ∧
      (∀ h, Survives Marshall.packReqHeader Unmarshall.unpackReqHeader body arguments h) ∧
      ∀ h, Survives Marshall.packReplyHeader Unmarshall.unpackReplyHeader body arguments h := by
  have room : rpcHeaderSz ≤ defaultRpcSz := by decide
  obtain ⟨body, ran, appended⟩ := writes_arguments arguments (.start uninit) room room total
  have header : rpcHeaderSz ≤ body.capa := room.trans appended.grows
  exact ⟨body, ran, appended.ind_eq,
    fun h => survives reqHeader_codec appended rfl header total h,
    fun h => survives replyHeader_codec appended rfl header total h⟩

def sampleArguments : List Argument :=
  [⟨.int, ⟨(-5 : Int32), trivial⟩⟩,
    ⟨.map .string (.vector .short), ⟨[([104, 105], [(-1 : Int16), (2 : Int16)]), ([104, 106], [])], by
      refine ⟨?_, ?_⟩
      · exact List.Pairwise.cons (fun other member => by cases List.mem_singleton.mp member; rfl)
          (List.pairwise_singleton _ _)
      · exact fun pair _member => ⟨trivial, fun x _inside => trivial⟩⟩⟩]

theorem message_round_trip_sample :
    ∃ body, marshallArguments (.start (fun _ => 0)) sampleArguments = some body ∧
      body.ind = rpcHeaderSz + (encodeArguments sampleArguments).length ∧
      (∀ h, Survives Marshall.packReqHeader Unmarshall.unpackReqHeader body sampleArguments h) ∧
      ∀ h, Survives Marshall.packReplyHeader Unmarshall.unpackReplyHeader body sampleArguments h :=
  message_round_trip (fun _ => 0) sampleArguments (by decide)

end CseLab.Rpc
