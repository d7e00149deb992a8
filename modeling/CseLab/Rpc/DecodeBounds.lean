import CseLab.Rpc.Decode

/-! What a decoder asks of a message. Requests for bytes stay inside it unless the
length of a string carries the read position over 2^32; containers decode as many
elements as they announce. -/

namespace CseLab.Rpc

open Bounds

/-! ### Sequences of operations -/

inductive DecodeOp where
  | reqHeader
  | replyHeader
  | value (t : Ty) (target : t.Raw)

def Decoding.unpack (d : Decoding) : Int32 × Decoding := (d.word.1.toInt32, d.word.2)

def Decoding.unpackReqHeader (d : Decoding) : ReqHeader × Decoding :=
  let d := d.seek sizeofRpcSz
  let (xid, d) := d.unpack
  let (proc, d) := d.unpack
  let (cltNonce, d) := d.unpack
  let (srvNonce, d) := d.unpack
  let (xidRep, d) := d.unpack
  ({ xid, proc, cltNonce := cltNonce.toUInt32, srvNonce := srvNonce.toUInt32, xidRep },
    d.seek rpcHeaderSz)

def Decoding.unpackReplyHeader (d : Decoding) : ReplyHeader × Decoding :=
  let d := d.seek sizeofRpcSz
  let (xid, d) := d.unpack
  let (ret, d) := d.unpack
  ({ xid, ret }, d.seek rpcHeaderSz)

def DecodeOp.run : DecodeOp → Decoding → Decoding
  | .reqHeader, d => d.unpackReqHeader.2
  | .replyHeader, d => d.unpackReplyHeader.2
  | .value t target, d => (t.decode target d).2

def decodeAll (ops : List DecodeOp) (d : Decoding) : Decoding :=
  ops.foldl (fun d op => op.run d) d

def DecodeOp.plain : DecodeOp → Unmarshall → Unmarshall
  | .reqHeader, u => u.unpackReqHeader.2
  | .replyHeader, u => u.unpackReplyHeader.2
  | .value t _, u => (t.unmarshall u).2

/-- Something of every length that the operations find in the message. -/
def AllLengths (onString onCount : Nat → Unmarshall → Prop) : List DecodeOp → Unmarshall → Prop
  | [], _ => True
  | .value t target :: ops, u =>
      t.Lengths onString onCount u ∧
        AllLengths onString onCount ops ((DecodeOp.value t target).plain u)
  | op :: ops, u => AllLengths onString onCount ops (op.plain u)

theorem Decoding.unpackReqHeader_snd (d : Decoding) :
    d.unpackReqHeader.2 =
      ((d.seek sizeofRpcSz).word.2.word.2.word.2.word.2.word.2).seek rpcHeaderSz := by
  unfold Decoding.unpackReqHeader Decoding.unpack
  dsimp only

theorem Decoding.unpackReplyHeader_snd (d : Decoding) :
    d.unpackReplyHeader.2 = ((d.seek sizeofRpcSz).word.2.word.2).seek rpcHeaderSz := by
  unfold Decoding.unpackReplyHeader Decoding.unpack
  dsimp only

theorem DecodeOp.run_u (op : DecodeOp) (d : Decoding) : (op.run d).u = op.plain d.u := by
  have sought : ∀ (d : Decoding) (ind : Nat), (d.seek ind).u = { d.u with ind := ind } :=
    fun _ _ => rfl
  cases op with
  | reqHeader =>
      change d.unpackReqHeader.2.u = d.u.unpackReqHeader.2
      rw [Decoding.unpackReqHeader_snd]
      unfold Unmarshall.unpackReqHeader Unmarshall.unpack
      simp only [sought, (follows_word _).2]
  | replyHeader =>
      change d.unpackReplyHeader.2.u = d.u.unpackReplyHeader.2
      rw [Decoding.unpackReplyHeader_snd]
      unfold Unmarshall.unpackReplyHeader Unmarshall.unpack
      simp only [sought, (follows_word _).2]
  | value t target => exact (decode_eq t target d).2

section Observed

variable {invariant sees : Decoding → Prop} {onString onCount : Nat → Unmarshall → Prop}

theorem Observer.reqHeader (observer : Observer invariant sees onString onCount) (d : Decoding)
    (holds : invariant d) :
    invariant d.unpackReqHeader.2 ∧ (sees d.unpackReqHeader.2 ↔ sees d) := by
  rw [Decoding.unpackReqHeader_snd]
  obtain ⟨start, sees0⟩ := observer.seek d sizeofRpcSz holds
  obtain ⟨first, sees1⟩ := observer.word _ start
  obtain ⟨second, sees2⟩ := observer.word _ first
  obtain ⟨third, sees3⟩ := observer.word _ second
  obtain ⟨fourth, sees4⟩ := observer.word _ third
  obtain ⟨fifth, sees5⟩ := observer.word _ fourth
  obtain ⟨last, sees6⟩ := observer.seek _ rpcHeaderSz fifth
  exact ⟨last, sees6.trans (sees5.trans (sees4.trans (sees3.trans (sees2.trans
    (sees1.trans sees0)))))⟩

theorem Observer.replyHeader (observer : Observer invariant sees onString onCount) (d : Decoding)
    (holds : invariant d) :
    invariant d.unpackReplyHeader.2 ∧ (sees d.unpackReplyHeader.2 ↔ sees d) := by
  rw [Decoding.unpackReplyHeader_snd]
  obtain ⟨start, sees0⟩ := observer.seek d sizeofRpcSz holds
  obtain ⟨first, sees1⟩ := observer.word _ start
  obtain ⟨second, sees2⟩ := observer.word _ first
  obtain ⟨last, sees3⟩ := observer.seek _ rpcHeaderSz second
  exact ⟨last, sees3.trans (sees2.trans (sees1.trans sees0))⟩

theorem Observer.all (observer : Observer invariant sees onString onCount)
    (ops : List DecodeOp) (d : Decoding) (holds : invariant d) :
    invariant (decodeAll ops d) ∧
      (sees (decodeAll ops d) ↔ sees d ∧ AllLengths onString onCount ops d.u) := by
  induction ops generalizing d with
  | nil => exact ⟨holds, (and_iff_left trivial).symm⟩
  | cons op ops ih =>
      have step : ∀ each : Prop, invariant (op.run d) → (sees (op.run d) ↔ sees d ∧ each) →
          invariant (decodeAll (op :: ops) d) ∧ (sees (decodeAll (op :: ops) d) ↔
            sees d ∧ each ∧ AllLengths onString onCount ops (op.plain d.u)) := by
        intro each kept here
        obtain ⟨rest, later⟩ := ih (op.run d) kept
        rw [DecodeOp.run_u, here, and_assoc] at later
        exact ⟨rest, later⟩
      have header : ∀ kept : invariant (op.run d), (sees (op.run d) ↔ sees d) →
          invariant (decodeAll (op :: ops) d) ∧ (sees (decodeAll (op :: ops) d) ↔
            sees d ∧ AllLengths onString onCount ops (op.plain d.u)) := by
        intro kept here
        have all := step True kept (by rw [and_true]; exact here)
        rw [true_and] at all
        exact all
      cases op with
      | value t target =>
          obtain ⟨kept, here⟩ := observer.decode t target d holds
          exact step _ kept here
      | reqHeader =>
          obtain ⟨kept, here⟩ := observer.reqHeader d holds
          exact header kept here
      | replyHeader =>
          obtain ⟨kept, here⟩ := observer.replyHeader d holds
          exact header kept here

end Observed

/-! ### Bytes -/

/-- Bytes are read from inside the message only, and where they are not there the
request fails. -/
def Ask.Safe (a : Ask) : Prop :=
  (a.reads = true → a.access.Fits) ∧ (¬a.access.Fits → a.ok = false)

/-- A string ends below 2^32. -/
def stringFits (n : Nat) (u : Unmarshall) : Prop := u.ind + n < 2 ^ 32

/-- A message of a size that is an `int`, in which no failure is forgotten. -/
structure Decoding.Latched (d : Decoding) : Prop where
  size : d.u.sz ≤ intMax
  latch : ∀ a ∈ d.asks, a.ok = false → d.u.ok = false

theorem Decoding.Latched.ask {d : Decoding} (latched : d.Latched) {count : Nat} {reads : Bool}
    {u : Unmarshall} (size : u.sz = d.u.sz) (falls : d.u.ok = false → u.ok = false) :
    (d.ask count reads u).Latched := by
  refine ⟨size.le.trans latched.size, ?_⟩
  intro a member failed
  change u.ok = false
  rcases List.mem_append.mp member with before | last
  · exact falls (latched.latch a before failed)
  · rw [List.mem_singleton.mp last] at failed
    exact failed

theorem Decoding.ask_safe {d : Decoding} {count : Nat} {reads : Bool} {u : Unmarshall} :
    (∀ a ∈ (d.ask count reads u).asks, a.Safe) ↔
      (∀ a ∈ d.asks, a.Safe) ∧
        Ask.Safe
          { access := { offset := d.u.ind, count := count, capacity := d.u.sz }
            reads := reads
            ok := u.ok } := by
  unfold Decoding.ask
  dsimp only
  rw [List.forall_mem_append, List.forall_mem_singleton]

theorem Unmarshall.rawbyte_sz (u : Unmarshall) : u.rawbyte.2.sz = u.sz := by
  unfold Unmarshall.rawbyte
  split <;> rfl

theorem Unmarshall.rawbyte_falls {u : Unmarshall} (failed : u.ok = false) :
    u.rawbyte.2.ok = false := by
  unfold Unmarshall.rawbyte
  split
  · rfl
  · exact failed

theorem Unmarshall.rawbytes_sz (u : Unmarshall) (ss : List UInt8) (n : UInt32) :
    (u.rawbytes ss n).2.sz = u.sz := by
  unfold Unmarshall.rawbytes
  dsimp only
  split <;> rfl

theorem Unmarshall.rawbytes_falls {u : Unmarshall} (ss : List UInt8) (n : UInt32)
    (failed : u.ok = false) : (u.rawbytes ss n).2.ok = false := by
  unfold Unmarshall.rawbytes
  dsimp only
  split
  · rfl
  · exact failed

theorem Decoding.rawbyte_safe (d : Decoding) :
    (∀ a ∈ d.rawbyte.2.asks, a.Safe) ↔ ∀ a ∈ d.asks, a.Safe := by
  refine Decoding.ask_safe.trans (and_iff_left ?_)
  constructor
  · intro reads
    have inside : ¬d.u.sz ≤ d.u.ind := of_decide_eq_true reads
    change d.u.ind + 1 ≤ d.u.sz
    omega
  · intro outside
    have past : d.u.sz ≤ d.u.ind := by
      change ¬(d.u.ind + 1 ≤ d.u.sz) at outside
      omega
    change d.u.rawbyte.2.ok = false
    unfold Unmarshall.rawbyte
    rw [if_pos past]

/-- The sum of the position and the length wraps around to one that passes. -/
theorem Decoding.rawbytes_safe {d : Decoding} (size : d.u.sz ≤ intMax) (ss : List UInt8)
    (n : UInt32) (inside : d.u.ind ≤ d.u.sz) :
    (∀ a ∈ (d.rawbytes ss n).2.asks, a.Safe) ↔
      (∀ a ∈ d.asks, a.Safe) ∧ stringFits n.toNat d.u := by
  refine Decoding.ask_safe.trans (and_congr_right fun _ => ?_)
  have small := n.toNat_lt
  unfold intMax at size
  unfold Ask.Safe stringFits Access.Fits
  dsimp only
  rw [decide_eq_true_eq]
  constructor
  · rintro ⟨reads, -⟩
    by_contra wraps
    have passes := reads (by omega)
    omega
  · intro fits
    constructor
    · intro passes
      omega
    · intro outside
      unfold Unmarshall.rawbytes
      dsimp only
      rw [if_pos (by omega)]

theorem byteObserver : Observer Decoding.Latched (fun d => ∀ a ∈ d.asks, a.Safe) stringFits
    (fun _ _ => True) where
  byte := fun d latched => ⟨latched.ask d.u.rawbyte_sz Unmarshall.rawbyte_falls, d.rawbyte_safe⟩
  bytes := fun d ss n latched _ok inside =>
    ⟨latched.ask (d.u.rawbytes_sz ss n) (Unmarshall.rawbytes_falls ss n),
      Decoding.rawbytes_safe latched.size ss n inside⟩
  note := fun _d _c _u latched _remaining _decoded =>
    ⟨⟨latched.size, latched.latch⟩, (and_iff_left trivial).symm⟩
  seek := fun _d _ind latched => ⟨⟨latched.size, latched.latch⟩, Iff.rfl⟩

/-- Whatever is decoded one after another, every byte read is in the message, and
once more is asked for than there is `ok()` is and stays false: so it is if and only
if every string in the message ends below 2^32. -/
theorem decode_in_message {u : Unmarshall} (size : u.sz ≤ intMax) (ops : List DecodeOp) :
    (∀ a ∈ (decodeAll ops (.start u)).asks,
      (a.reads = true → a.access.Fits) ∧
        (¬a.access.Fits → a.ok = false ∧ (decodeAll ops (.start u)).u.ok = false)) ↔
      AllLengths stringFits (fun _ _ => True) ops u := by
  have start : (Decoding.start u).Latched := ⟨size, fun _a member => absurd member List.not_mem_nil⟩
  obtain ⟨latched, safe⟩ := byteObserver.all ops (.start u) start
  have all := safe.trans (and_iff_right fun _a member => absurd member List.not_mem_nil)
  rw [← show _ ↔ AllLengths stringFits (fun _ _ => True) ops u from all]
  constructor
  · exact fun inMessage a member =>
      ⟨(inMessage a member).1, fun outside => ((inMessage a member).2 outside).1⟩
  · intro every a member
    refine ⟨(every a member).1, fun outside => ?_⟩
    have failed := (every a member).2 outside
    exact ⟨failed, latched.latch a member failed⟩

private def oneString : Unmarshall :=
  .start (fun address => if address = 27 then 1 else 7) 29

theorem decode_in_message_string :
    (decodeAll [.replyHeader, .value .string []] (.start oneString)).asks.length = 13 ∧
      ∀ a ∈ (decodeAll [.replyHeader, .value .string []] (.start oneString)).asks,
        (a.reads = true → a.access.Fits) ∧ (¬a.access.Fits → a.ok = false ∧
          (decodeAll [.replyHeader, .value .string []] (.start oneString)).u.ok = false) := by
  refine ⟨by decide, (decode_in_message (by decide) _).mpr ⟨fun _ok => ?_, trivial⟩⟩
  change _ + _ < 2 ^ 32
  decide

/-- A length of 2^32 - 1 passes the check, and that many bytes are read. -/
theorem decode_outside :
    let u := Unmarshall.start (fun _ => 255) 8
    ∃ a ∈ (decodeAll [.value .string []] (.start u)).asks,
      a.reads = true ∧ a.access = { offset := 4, count := 2 ^ 32 - 1, capacity := 8 } ∧
        ¬a.access.Fits ∧ a.ok = true := by
  have first : (decodeAll [.value .string []]
      (.start (Unmarshall.start (fun _ => 255) 8))).asks.getLast? = some
        { access := { offset := 4, count := 2 ^ 32 - 1, capacity := 8 }, reads := true, ok := true } := by
    decide
  exact ⟨_, List.mem_of_getLast? first, rfl, rfl, by decide, rfl⟩

/-! ### Elements -/

/-- A count is no greater than the number of bytes behind it. -/
def countFits (n : Nat) (u : Unmarshall) : Prop := n ≤ u.sz - u.ind

def Decoding.Exhaustive (d : Decoding) : Prop := ∀ c ∈ d.containers, c.decoded = c.announced

theorem elementObserver : Observer Decoding.Exhaustive
    (fun d => ∀ c ∈ d.containers, c.decoded ≤ c.remaining) (fun _ _ => True) countFits where
  byte := fun _d holds => ⟨holds, Iff.rfl⟩
  bytes := fun _d _ss _n holds _ok _inside => ⟨holds, (and_iff_left trivial).symm⟩
  note := by
    intro d c u holds remaining decoded
    unfold Decoding.Exhaustive Decoding.note countFits
    rw [List.forall_mem_append, List.forall_mem_append, List.forall_mem_singleton,
      List.forall_mem_singleton, remaining, decoded]
    exact ⟨⟨holds, rfl⟩, Iff.rfl⟩
  seek := fun _d _ind holds => ⟨holds, Iff.rfl⟩

/-- In proportion to the message: no container has more elements decoded than bytes
behind its count, and a count that is greater makes the decoding fail with at most
as many elements added. So it is if and only if no count is greater. -/
theorem decode_proportional (t : Ty) (target : t.Raw) (u : Unmarshall) :
    (∀ c ∈ (t.decode target (.start u)).2.containers,
      c.decoded ≤ c.remaining ∧
        (c.remaining < c.announced →
          (t.decode target (.start u)).2.u.ok = false ∧ c.appended ≤ c.remaining)) ↔
      t.Lengths (fun _ _ => True) countFits u := by
  have none : ∀ c ∈ (Decoding.start u).containers, c.decoded ≤ c.remaining :=
    fun _c member => absurd member List.not_mem_nil
  obtain ⟨exhaustive, decoded⟩ := elementObserver.decode t target (.start u)
    (fun _c member => absurd member List.not_mem_nil)
  rw [← show _ ↔ t.Lengths (fun _ _ => True) countFits u from
    decoded.trans (and_iff_right none)]
  constructor
  · exact fun proportional c member => (proportional c member).1
  · intro few c member
    have all := exhaustive c member
    have bound := few c member
    exact ⟨bound, fun more => by omega⟩

/-- Five elements are announced and nothing follows: five are decoded and added. -/
theorem decode_disproportionate :
    let u := Unmarshall.start (fun address => if address = 3 then 5 else 0) 4
    ((Ty.vector .bool).decode ([] : List Bool) (.start u)).2.containers =
        [{ announced := 5, remaining := 0, decoded := 5, appended := 5 }] ∧
      ((Ty.vector .bool).decode ([] : List Bool) (.start u)).2.u.ok = false := by
  decide

end CseLab.Rpc
