import CseLab.Rpc.DecodeBounds

/-! The other direction of the wire format. What is decoded without a failure is
the encoding of the value that comes out, for every type but `bool`, which any byte
other than 0 sets, and maps, whose pairs may come in any order. -/

namespace CseLab.Rpc

open ByteMemory BigEndian

/-- The bytes that stand ahead of `u` are in the message, and `after` is behind them. -/
structure Unmarshall.Took (u : Unmarshall) (bytes : List UInt8) (after : Unmarshall) : Prop where
  ok : u.ok = true
  inside : u.ind + bytes.length ≤ u.sz
  holds : Holds u.buf u.ind bytes
  after_eq : after = { u with ind := u.ind + bytes.length }

theorem Unmarshall.Took.nil {u : Unmarshall} (ok : u.ok = true) (inside : u.ind ≤ u.sz) :
    u.Took [] u :=
  ⟨ok, inside, holds_nil _ _, rfl⟩

theorem Unmarshall.Took.append {u middle after : Unmarshall} {xs ys : List UInt8}
    (first : u.Took xs middle) (second : middle.Took ys after) : u.Took (xs ++ ys) after := by
  obtain ⟨ok, inside, holds, rfl⟩ := first
  obtain ⟨-, insideSecond, holdsSecond, rfl⟩ := second
  refine ⟨ok, ?_, holds_append.mpr ⟨holds, holdsSecond⟩, ?_⟩
  · rw [List.length_append, ← Nat.add_assoc]
    exact insideSecond
  · rw [List.length_append, ← Nat.add_assoc]

theorem Unmarshall.Took.after_inside {u after : Unmarshall} {bytes : List UInt8}
    (took : u.Took bytes after) : after.ind ≤ after.sz := by
  rw [took.after_eq]
  exact took.inside

/-! ### Words -/

theorem Unmarshall.rawbyte_took {u : Unmarshall} (ok : u.rawbyte.2.ok = true) :
    u.Took [u.rawbyte.1.toUInt8] u.rawbyte.2 := by
  unfold Unmarshall.rawbyte at ok ⊢
  by_cases past : u.sz ≤ u.ind
  · rw [if_pos past] at ok
    cases ok
  · rw [if_neg past] at ok ⊢
    refine ⟨ok, ?_, holds_singleton.mpr ?_, rfl⟩
    · rw [List.length_singleton]
      omega
    · exact (narrow_signed _).symm

theorem Unmarshall.word_took {u : Unmarshall} (ok : u.word.2.ok = true) :
    u.Took (bytes32 u.word.1) u.word.2 := by
  change u.rawbyte.2.rawbyte.2.rawbyte.2.rawbyte.2.ok = true at ok
  have fourth := Unmarshall.rawbyte_took ok
  have third := Unmarshall.rawbyte_took fourth.ok
  have second := Unmarshall.rawbyte_took third.ok
  have first := Unmarshall.rawbyte_took second.ok
  have bytes : bytes32 u.word.1 = [u.rawbyte.1.toUInt8] ++ ([u.rawbyte.2.rawbyte.1.toUInt8] ++
      ([u.rawbyte.2.rawbyte.2.rawbyte.1.toUInt8] ++
        [u.rawbyte.2.rawbyte.2.rawbyte.2.rawbyte.1.toUInt8])) := by
    unfold Unmarshall.word
    dsimp only
    rw [mask_narrow, mask_narrow, mask_narrow, mask_narrow]
    exact split32 _ _ _ _
  rw [bytes]
  exact first.append (second.append (third.append fourth))

/-- A string whose length wraps around is not the last thing in its message: what is
behind it is in front of it. -/
theorem Unmarshall.string_fits {u : Unmarshall}
    (done : (Ty.string.unmarshall u).2.okdone = true) :
    Ty.string.Lengths stringFits (fun _ _ => True) u := by
  intro counted
  by_contra wraps
  have read : Ty.string.unmarshall u = u.word.2.rawbytes [] u.word.1 := if_pos counted
  rw [read] at done
  have inside := (Unmarshall.word_took counted).after_inside
  have small := u.word.1.toNat_lt
  unfold stringFits at wraps
  obtain ⟨ok, whole⟩ := Bool.and_eq_true_iff.mp done
  unfold Unmarshall.rawbytes at ok whole
  dsimp only at ok whole
  by_cases outside : u.word.2.sz < (u.word.2.ind + u.word.1.toNat) % 2 ^ 32
  · rw [if_pos outside] at ok
    cases ok
  · rw [if_neg outside] at whole
    have same : (u.word.2.ind + u.word.1.toNat) % 2 ^ 32 = u.word.2.sz := beq_iff_eq.mp whole
    omega

/-- The types of which no two messages decode to the same value. -/
def Ty.Canonical : Ty → Prop
  | .bool | .map _ _ => False
  | .vector element => element.Canonical
  | _ => True

theorem Ty.Canonical.valid {t : Ty} (canonical : t.Canonical) (v : t.Raw) : t.Valid v := by
  induction t with
  | bool | map _ _ _ _ => exact canonical.elim
  | vector element ih => exact fun x _member => ih canonical x
  | char | unsignedChar | short | unsignedShort | int | unsignedInt | unsignedLongLong | string
  | attr => trivial

end CseLab.Rpc
