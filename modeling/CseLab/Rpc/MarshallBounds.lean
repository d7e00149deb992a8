import CseLab.Lib.Transition
import CseLab.Rpc.RoundTrip

/-! The capacity of a `marshall` over any sequence of its operations: there is
always room for the next write, and the capacity stays an `int`. -/

namespace CseLab.Rpc

open ByteMemory Transition

/-! ### Capacities -/

def Grows (write : Marshall → Option Marshall) : Prop :=
  ∀ m after, write m = some after →
    m.capa ≤ after.capa ∧ (m.capa ≤ intMax → after.capa ≤ intMax)

theorem Grows.bind {first second : Marshall → Option Marshall} (growsFirst : Grows first)
    (growsSecond : Grows second) : Grows (fun m => (first m).bind second) := by
  intro m after wrote
  rcases Option.bind_eq_some_iff.mp wrote with ⟨middle, wroteFirst, wroteSecond⟩
  have left := growsFirst m middle wroteFirst
  have right := growsSecond middle after wroteSecond
  exact ⟨left.1.trans right.1, fun int => right.2 (left.2 int)⟩

theorem Grows.foldlM {Item : Type} {element : Marshall → Item → Option Marshall}
    (grows : ∀ item, Grows (fun m => element m item)) (items : List Item) :
    Grows (fun m => items.foldlM element m) := by
  induction items with
  | nil =>
      rintro m _ ⟨⟩
      exact ⟨Nat.le_refl _, id⟩
  | cons item rest ih => exact (grows item).bind ih

theorem realloc_eq_some {capa after : Nat} (grown : realloc capa = some after) :
    after = capa ∧ capa ≤ intMax := by
  unfold realloc at grown
  split at grown
  · cases grown
    exact ⟨rfl, ‹_›⟩
  · cases grown

theorem grows_rawbyte (x : UInt8) : Grows (fun m => m.rawbyte x) := by
  intro m after wrote
  change m.rawbyte x = some after at wrote
  unfold Marshall.rawbyte at wrote
  rcases Option.bind_eq_some_iff.mp wrote with ⟨capa, grown, written⟩
  have same : after.capa = capa := by
    split at written
    · cases written
      rfl
    · cases written
  rw [same]
  split at grown
  · have exactly := realloc_eq_some grown
    omega
  · cases grown
    exact ⟨Nat.le_refl _, id⟩

theorem grows_rawbytes (bytes : List UInt8) : Grows (fun m => m.rawbytes bytes) := by
  intro m after wrote
  change m.rawbytes bytes = some after at wrote
  unfold Marshall.rawbytes at wrote
  simp only at wrote
  split at wrote
  · cases wrote
  · rcases Option.bind_eq_some_iff.mp wrote with ⟨capa, grown, written⟩
    have same : after.capa = capa := by
      split at written
      · cases written
        rfl
      · cases written
    rw [same]
    split at grown
    · have exactly := realloc_eq_some grown
      split at exactly <;> omega
    · cases grown
      exact ⟨Nat.le_refl _, id⟩

theorem grows_word (x : UInt32) : Grows (fun m => m.word x) :=
  (grows_rawbyte _).bind ((grows_rawbyte _).bind ((grows_rawbyte _).bind (grows_rawbyte _)))

theorem grows_half (x : UInt16) : Grows (fun m => m.half x) :=
  (grows_rawbyte _).bind (grows_rawbyte _)

theorem grows_sequence {Item : Type} {element : Marshall → Item → Option Marshall}
    (grows : ∀ item, Grows (fun m => element m item)) (items : List Item) :
    Grows (fun m => m.sequence element items) := by
  intro m after wrote
  change m.sequence element items = some after at wrote
  unfold Marshall.sequence at wrote
  split at wrote
  · exact (grows_word _).bind (Grows.foldlM grows items) m after wrote
  · cases wrote

theorem grows_value (t : Ty) (v : t.Raw) : Grows (fun m => t.marshall m v) := by
  induction t with
  | bool => exact grows_rawbyte _
  | char => exact grows_rawbyte _
  | unsignedChar => exact grows_rawbyte _
  | short => exact grows_half _
  | unsignedShort => exact grows_half _
  | int => exact grows_word _
  | unsignedInt => exact grows_word _
  | unsignedLongLong => exact (grows_word _).bind (grows_word _)
  | string => exact (grows_word _).bind (grows_rawbytes _)
  | vector element ih => exact grows_sequence ih _
  | map key value ihKey ihValue =>
      apply grows_sequence
      intro pair
      exact (ihKey pair.1).bind (ihValue pair.2)
  | attr =>
      exact (grows_word _).bind ((grows_word _).bind ((grows_word _).bind
        ((grows_word _).bind (grows_word _))))

theorem Grows.inFront {write : Marshall → Option Marshall} (grows : Grows write) :
    Grows (fun m => (write { m with ind := sizeofRpcSz }).bind
      (fun packed => some { packed with ind := m.ind })) := by
  intro m after wrote
  rcases Option.bind_eq_some_iff.mp wrote with ⟨packed, written, same⟩
  cases same
  exact grows { m with ind := sizeofRpcSz } packed written

theorem grows_packReqHeader (h : ReqHeader) : Grows (fun m => m.packReqHeader h) := by
  have words := (grows_word h.xid.toUInt32).bind ((grows_word h.proc.toUInt32).bind
    ((grows_word h.cltNonce.toInt32.toUInt32).bind
      ((grows_word h.srvNonce.toInt32.toUInt32).bind (grows_word h.xidRep.toUInt32))))
  have packed := words.inFront
  simp only [Option.bind_assoc] at packed
  exact packed

theorem grows_packReplyHeader (h : ReplyHeader) : Grows (fun m => m.packReplyHeader h) := by
  have packed := ((grows_word h.xid.toUInt32).bind (grows_word h.ret.toUInt32)).inFront
  simp only [Option.bind_assoc] at packed
  exact packed

/-! ### Operations -/

inductive MarshallOp where
  | rawbyte (x : UInt8)
  | rawbytes (bytes : List UInt8)
  | value (t : Ty) (v : t.Raw)
  | packReqHeader (h : ReqHeader)
  | packReplyHeader (h : ReplyHeader)

namespace MarshallOp

def apply (m : Marshall) : MarshallOp → Option Marshall
  | .rawbyte x => m.rawbyte x
  | .rawbytes bytes => m.rawbytes bytes
  | .value t v => t.marshall m v
  | .packReqHeader h => m.packReqHeader h
  | .packReplyHeader h => m.packReplyHeader h

def body : MarshallOp → List UInt8
  | .rawbyte x => [x]
  | .rawbytes bytes => bytes
  | .value t v => t.encode v
  | .packReqHeader _ => []
  | .packReplyHeader _ => []

def encodedSize (ops : List MarshallOp) : Nat := rpcHeaderSz + (ops.flatMap body).length

end MarshallOp

/-- The buffer has room for what it holds. -/
structure Marshall.Roomy (m : Marshall) : Prop where
  header : rpcHeaderSz ≤ m.ind
  inside : m.ind ≤ m.capa
  int : m.capa ≤ intMax

/-- An operation neither overflowed the buffer nor touched the body it found. -/
structure Kept (m after : Marshall) : Prop where
  roomy : after.Roomy
  below : ∀ address, after.capa ≤ address → after.buf address = m.buf address
  body : ∀ address, rpcHeaderSz ≤ address → address < m.ind → after.buf address = m.buf address

theorem roomy_start (uninit : Memory) : (Marshall.start uninit).Roomy := by
  have room : rpcHeaderSz ≤ defaultRpcSz := by decide
  have int : defaultRpcSz ≤ intMax := by decide
  exact ⟨Nat.le_refl rpcHeaderSz, room, int⟩

section

variable {m : Marshall} {write : Marshall → Option Marshall} {bytes : List UInt8}

theorem Writes.kept (writes : Writes write bytes) (grows : Grows write) (roomy : m.Roomy)
    (fits : m.ind + bytes.length ≤ 2 ^ 30) :
    ∃ after, write m = some after ∧ after.ind = m.ind + bytes.length ∧ Kept m after := by
  rcases writes m roomy.inside (roomy.header.trans roomy.inside) fits with
    ⟨after, wrote, appended⟩
  have placed := appended.ind_eq
  have header := roomy.header
  have inside := appended.inside
  refine ⟨after, wrote, placed, ⟨by omega, inside, (grows m after wrote).2 roomy.int⟩, ?_, ?_⟩
  · intro address above
    exact appended.others address (.inr (by omega))
  · intro address _lower upper
    exact appended.others address (.inl upper)

theorem HeaderCodec.kept {Header : Type} {pack : Marshall → Header → Option Marshall}
    {unpack : Unmarshall → Header × Unmarshall} {encode : Header → List UInt8}
    (codec : HeaderCodec pack unpack encode) {h : Header} (grows : Grows (fun m => pack m h))
    (roomy : m.Roomy) :
    ∃ after, pack m h = some after ∧ after.ind = m.ind ∧ Kept m after := by
  have room := roomy.header.trans roomy.inside
  rcases codec.packs m h room with ⟨after, packed, same, -, others⟩
  have grown := grows m after packed
  refine ⟨after, packed, same, ⟨?_, ?_, grown.2 roomy.int⟩, ?_, ?_⟩
  · exact same ▸ roomy.header
  · exact same ▸ roomy.inside.trans grown.1
  · intro address above
    exact others address (.inr (room.trans (grown.1.trans above)))
  · intro address lower _upper
    exact others address (.inr lower)

end

theorem MarshallOp.apply_kept {m : Marshall} (roomy : m.Roomy) (op : MarshallOp)
    (fits : m.ind + op.body.length ≤ 2 ^ 30) :
    ∃ after, op.apply m = some after ∧ after.ind = m.ind + op.body.length ∧ Kept m after := by
  cases op with
  | rawbyte x =>
      change ∃ after, m.rawbyte x = some after ∧ after.ind = m.ind + [x].length ∧ Kept m after
      exact (writes_rawbyte x).kept (grows_rawbyte x) roomy fits
  | rawbytes bytes =>
      change ∃ after, m.rawbytes bytes = some after ∧ after.ind = m.ind + bytes.length ∧
        Kept m after
      exact (writes_rawbytes bytes).kept (grows_rawbytes bytes) roomy fits
  | value t v =>
      change ∃ after, t.marshall m v = some after ∧ after.ind = m.ind + (t.encode v).length ∧
        Kept m after
      exact (writes_value t v).kept (grows_value t v) roomy fits
  | packReqHeader h => exact reqHeader_codec.kept (grows_packReqHeader h) roomy
  | packReplyHeader h => exact replyHeader_codec.kept (grows_packReplyHeader h) roomy

theorem MarshallOp.run_roomy (ops : List MarshallOp) {m : Marshall} (roomy : m.Roomy)
    (fits : m.ind + (ops.flatMap body).length ≤ 2 ^ 30) :
    ∃ final, run (fun m (op : MarshallOp) => op.apply m) m ops = some final ∧
      final.ind = m.ind + (ops.flatMap body).length ∧ final.Roomy := by
  induction ops generalizing m with
  | nil => exact ⟨m, rfl, rfl, roomy⟩
  | cons op rest ih =>
      rw [List.flatMap_cons, List.length_append] at fits ⊢
      rcases op.apply_kept roomy (by omega) with ⟨after, applied, placed, kept⟩
      rcases ih kept.roomy (by omega) with ⟨final, ran, size, roomyFinal⟩
      exact ⟨final, by rw [run_cons, applied, Option.bind_some, ran], by omega, roomyFinal⟩

/-- The buffer never overflows: up to 2^30 bytes, header included, every operation
of the sequence goes through, ends with the write position between the header and
the capacity, changes no byte at or past the capacity, and keeps the body so far. -/
theorem marshall_never_overflows (uninit : Memory) (ops : List MarshallOp)
    (size : MarshallOp.encodedSize ops ≤ 2 ^ 30) :
    ∀ before op later, ops = before ++ op :: later →
      ∃ m after, run (fun m (op : MarshallOp) => op.apply m) (.start uninit) before = some m ∧
        op.apply m = some after ∧ after.ind = MarshallOp.encodedSize (before ++ [op]) ∧
        Kept m after := by
  rintro before op later rfl
  unfold MarshallOp.encodedSize at size ⊢
  rw [List.flatMap_append, List.flatMap_cons, List.length_append, List.length_append] at size
  have first : (Marshall.start uninit).ind = rpcHeaderSz := rfl
  rcases MarshallOp.run_roomy before (roomy_start uninit) (by omega) with ⟨m, ran, placed, roomy⟩
  rcases op.apply_kept roomy (by omega) with ⟨after, applied, next, kept⟩
  refine ⟨m, after, ran, applied, ?_, kept⟩
  rw [List.flatMap_append, List.flatMap_singleton, List.length_append]
  omega

theorem marshall_never_overflows_sample :
    ∃ m after, run (fun m (op : MarshallOp) => op.apply m) (.start fun _ => 0)
        [.rawbyte 7, .packReplyHeader ⟨1, 0⟩] = some m ∧
      MarshallOp.apply m (.value .string (List.replicate 9 65)) = some after ∧
      after.ind = MarshallOp.encodedSize
        [.rawbyte 7, .packReplyHeader ⟨1, 0⟩, .value .string (List.replicate 9 65)] ∧
      Kept m after :=
  marshall_never_overflows (fun _ => 0)
    [.rawbyte 7, .packReplyHeader ⟨1, 0⟩, .value .string (List.replicate 9 65)] (by decide)
    [.rawbyte 7, .packReplyHeader ⟨1, 0⟩] (.value .string (List.replicate 9 65)) [] rfl

end CseLab.Rpc
