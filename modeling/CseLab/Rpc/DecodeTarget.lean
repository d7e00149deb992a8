import CseLab.Rpc.Decode
import CseLab.Rpc.RoundTrip

/-! What a target's old value does to the outcome of decoding, and to the result
variable of a call. Only a vector at the top keeps what it had. -/

namespace CseLab.Rpc

open ByteMemory BigEndian

/-- The type whose operator adds to what the target holds. -/
def Ty.Appends : Ty → Prop
  | .vector _ => True
  | _ => False

theorem Unmarshall.string_ok {u : Unmarshall} (s : List UInt8) (ok : (u.string []).2.ok = true) :
    (u.string s).1 = (u.string []).1 := by
  unfold Unmarshall.string at ok ⊢
  dsimp only at ok ⊢
  split at ok
  · rename_i fine
    rw [if_pos fine, if_pos fine]
    unfold Unmarshall.rawbytes at ok ⊢
    dsimp only at ok ⊢
    split at ok
    · cases ok
    · rename_i passes
      rw [if_neg passes, if_neg passes]
  · rename_i cut
    exact absurd ok cut

theorem received_ok {t : Ty} (target : t.Raw) {u : Unmarshall} (overwrites : ¬t.Appends)
    (ok : (t.unmarshall u).2.ok = true) : t.received target u = (t.unmarshall u).1 := by
  cases t with
  | bool | char | unsignedChar | short | unsignedShort | int | unsignedInt | unsignedLongLong
  | map | attr => rfl
  | vector element => exact absurd trivial overwrites
  | string => exact Unmarshall.string_ok target ok

def SameOutcome (t : Ty) (first second : t.Raw) (u : Unmarshall) : Prop :=
  (t.decode first (.start u)).2.u.ok = true → (t.decode second (.start u)).2.u.ok = true →
    (t.decode first (.start u)).1 = (t.decode second (.start u)).1 ∧
      (t.decode first (.start u)).2.u.ind = (t.decode second (.start u)).2.u.ind

def emptyVector : Unmarshall := .start (fun _ => 0) 4

theorem received_emptyVector (element : Ty) (v : List element.Raw) :
    (Ty.vector element).received v emptyVector = v := by
  have none : emptyVector.word.1.toNat = 0 := by decide
  change v ++ (Unmarshall.collect element.unmarshall (fun xs x => xs ++ [x])
    emptyVector.word.1.toNat emptyVector.word.2 []).1 = v
  rw [none]
  exact List.append_nil v

/-- Old values make no difference except those of a vector. -/
theorem sameOutcome_iff (t : Ty) (first second : t.Raw) :
    (∀ u, SameOutcome t first second u) ↔ (t.Appends → first = second) := by
  have start : ∀ u, (Decoding.start u).u = u := fun _ => rfl
  constructor
  · intro same appends
    cases t with
    | vector element =>
        have outcome := (same emptyVector rfl rfl).1
        rw [(decode_eq _ first _).1, (decode_eq _ second _).1, start] at outcome
        calc first = (Ty.vector element).received first emptyVector :=
              (received_emptyVector element first).symm
          _ = (Ty.vector element).received second emptyVector := outcome
          _ = second := received_emptyVector element second
    | bool | char | unsignedChar | short | unsignedShort | int | unsignedInt | unsignedLongLong
    | string | map | attr => exact absurd appends not_false
  · intro overwrites u ok _okSecond
    obtain ⟨firstValue, firstRest⟩ := decode_eq t first (.start u)
    obtain ⟨secondValue, secondRest⟩ := decode_eq t second (.start u)
    rw [firstRest, start] at ok
    rw [firstValue, firstRest, secondValue, secondRest, start]
    refine ⟨?_, rfl⟩
    by_cases appends : t.Appends
    · rw [overwrites appends]
    · rw [received_ok first appends ok, received_ok second appends ok]

/-! ### Result variables -/

def Unmarshall.takeIn (buf : Memory) (sz : Nat) : Unmarshall :=
  { buf := buf, sz := sz, ind := rpcHeaderSz, ok := decide (rpcHeaderSz ≤ sz) }

/-- `call_m` with what `call1` returns and the reply; it aborts where the reply is
not the marshalled result and nothing else. -/
def callM (t : Ty) (intret : Int) (u : Unmarshall) (r : t.Raw) : Option (Int × t.Raw) :=
  if intret < 0 then some (intret, r)
  else
    let (r, d) := t.decode r (.start u)
    if d.u.okdone then some (intret, r) else none

theorem received_sent {t : Ty} (r : t.Raw) {u : Unmarshall} (ok : (t.unmarshall u).2.ok = true) :
    t.received r u = (t.unmarshall u).1 ↔ (t.Appends → r = t.fresh) := by
  by_cases appends : t.Appends
  · cases t with
    | vector element =>
        refine Iff.trans ?_ (forall_prop_of_true appends).symm
        exact List.append_left_eq_self
    | bool | char | unsignedChar | short | unsignedShort | int | unsignedInt | unsignedLongLong
    | string | map | attr => exact absurd appends not_false
  · exact ⟨fun _ appends' => absurd appends' appends, fun _ => received_ok r appends ok⟩

/-- The reply to a call holds the result that the server marshalled. -/
structure Unmarshall.Carries (u : Unmarshall) (t : Ty) (sent : t.Value) : Prop where
  ok : u.ok = true
  small : u.sz ≤ 2 ^ 30
  whole : u.ind + (t.encode sent.1).length = u.sz
  holds : Holds u.buf u.ind (t.encode sent.1)

theorem callM_sent {t : Ty} {sent : t.Value} {u : Unmarshall} (carries : u.Carries t sent)
    {intret : Int} (nonneg : 0 ≤ intret) (r : t.Raw) :
    callM t intret u r = some (intret, sent.1) ↔ (t.Appends → r = t.fresh) := by
  have read := reads_value t sent.1 sent.2 u carries.ok carries.small carries.whole.le carries.holds
  obtain ⟨value, rest⟩ := decode_eq t r (.start u)
  have start : (Decoding.start u).u = u := rfl
  rw [start] at value rest
  have okdone : (t.decode r (.start u)).2.u.okdone = true := by
    rw [rest, read]
    unfold Unmarshall.okdone
    rw [carries.ok, carries.whole, beq_self_eq_true]
    rfl
  have called : callM t intret u r = some (intret, t.received r u) := by
    unfold callM
    dsimp only
    rw [if_neg (Int.not_lt.mpr nonneg), if_pos okdone, value]
  have okEnd : (t.unmarshall u).2.ok = true := by
    rw [read]
    exact carries.ok
  rw [called, ← received_sent r okEnd, read]
  simp

theorem reply_carries (uninit : Memory) {t : Ty} (sent : t.Value)
    (total : rpcHeaderSz + (t.encode sent.1).length ≤ 2 ^ 30) :
    ∃ body, marshallArguments (.start uninit) [⟨t, sent⟩] = some body ∧
      ∀ h, ∃ packed, body.packReplyHeader h = some packed ∧
        ∀ received : Memory,
          (∀ address, sizeofRpcSz ≤ address → address < packed.ind →
            received address = packed.buf address) →
          (Unmarshall.takeIn received packed.ind).Carries t sent := by
  have encoded : encodeArguments [⟨t, sent⟩] = t.encode sent.1 := List.append_nil _
  have room : rpcHeaderSz ≤ defaultRpcSz := by decide
  rw [← encoded] at total
  obtain ⟨body, ran, appended⟩ := writes_arguments [⟨t, sent⟩] (.start uninit) room room total
  have header : rpcHeaderSz ≤ body.capa := room.trans appended.grows
  refine ⟨body, ran, fun h => ?_⟩
  obtain ⟨packed, packs, -⟩ := replyHeader_codec.packs body h header
  refine ⟨packed, packs, ?_⟩
  intro received same
  obtain ⟨size, holds⟩ := replyHeader_codec.body_arrives appended rfl header packs same
  rw [encoded] at size holds total
  refine ⟨?_, ?_, size.symm, holds⟩
  · have pastHeader : rpcHeaderSz ≤ packed.ind := by omega
    exact decide_eq_true pastHeader
  · change packed.ind ≤ 2 ^ 30
    omega

/-- Decoding does not look at the old value of its target, and a call sets its result
variable to what the server sent: so it is for two old values, or one, if and only if
the type is not that of a vector, or they are the same, or there is none. -/
theorem decode_target (uninit : Memory) (t : Ty) :
    (∀ first second : t.Raw,
      (∀ u, SameOutcome t first second u) ↔ (t.Appends → first = second)) ∧
    ∀ sent : t.Value, rpcHeaderSz + (t.encode sent.1).length ≤ 2 ^ 30 →
      ∃ body, marshallArguments (.start uninit) [⟨t, sent⟩] = some body ∧
        ∀ h, ∃ packed, body.packReplyHeader h = some packed ∧
          ∀ received : Memory,
            (∀ address, sizeofRpcSz ≤ address → address < packed.ind →
              received address = packed.buf address) →
            ∀ (intret : Int) (r : t.Raw), 0 ≤ intret →
              (callM t intret (.takeIn received packed.ind) r = some (intret, sent.1) ↔
                (t.Appends → r = t.fresh)) := by
  refine ⟨sameOutcome_iff t, ?_⟩
  intro sent total
  obtain ⟨body, ran, replies⟩ := reply_carries uninit sent total
  refine ⟨body, ran, fun h => ?_⟩
  obtain ⟨packed, packs, arrives⟩ := replies h
  refine ⟨packed, packs, ?_⟩
  intro received same intret r nonneg
  exact callM_sent (arrives received same) nonneg r

theorem decode_target_string : ∃ body packed,
    marshallArguments (.start (fun _ => 0)) [⟨.string, ⟨[104, 105], trivial⟩⟩] = some body ∧
    body.packReplyHeader { xid := 1, ret := 0 } = some packed ∧
    callM .string 0 (.takeIn packed.buf packed.ind) [1, 2, 3] = some (0, [104, 105]) := by
  obtain ⟨-, calls⟩ := decode_target (fun _ => 0) .string
  obtain ⟨body, ran, replies⟩ := calls ⟨[104, 105], trivial⟩ (by decide)
  obtain ⟨packed, packs, sets⟩ := replies { xid := 1, ret := 0 }
  refine ⟨body, packed, ran, packs, ?_⟩
  exact (sets packed.buf (fun _ _ _ => rfl) 0 [1, 2, 3] (by decide)).mpr (fun appends => appends.elim)

private def oneElement : Unmarshall := .start (fun address => if address < 3 then 0 else 1) 5

private def readInto (old : List Bool) : List Bool × Decoding :=
  (Ty.vector .bool).decode old (.start oneElement)

/-- The element that was there stays in front of the one that was sent. -/
theorem decode_keeps_old :
    (readInto []).1 = [true] ∧ (readInto [false]).1 = [false, true] ∧
      ¬SameOutcome (.vector .bool) ([] : List Bool) ([false] : List Bool) oneElement ∧
      callM (.vector .bool) 0 oneElement ([false] : List Bool) =
        some (0, ([false, true] : List Bool)) := by
  have first : (readInto []).1 = [true] := by decide
  have second : (readInto [false]).1 = [false, true] := by decide
  have done : (readInto [false]).2.u.okdone = true := by decide
  refine ⟨first, second, ?_, ?_⟩
  · intro same
    have equal : (readInto []).1 = (readInto [false]).1 := (same (by decide) (by decide)).1
    rw [first, second] at equal
    cases equal
  · change (if (readInto [false]).2.u.okdone = true then some (0, (readInto [false]).1) else none) = _
    rw [if_pos done, second]

end CseLab.Rpc
