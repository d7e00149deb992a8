import Mathlib.Tactic

/-! Words as big-endian bytes, and the shifts and masks that put them together
again. -/

namespace CseLab.BigEndian

def bytes16 (x : UInt16) : List UInt8 := [(x >>> 8).toUInt8, x.toUInt8]

def bytes32 (x : UInt32) : List UInt8 :=
  [(x >>> 24).toUInt8, (x >>> 16).toUInt8, (x >>> 8).toUInt8, x.toUInt8]

@[simp] theorem bytes16_length (x : UInt16) : (bytes16 x).length = 2 := rfl

@[simp] theorem bytes32_length (x : UInt32) : (bytes32 x).length = 4 := rfl

theorem join (x k : Nat) : (x >>> k) <<< k ||| x % 2 ^ k = x := by
  apply Nat.eq_of_testBit_eq
  intro i
  simp only [Nat.testBit_or, Nat.testBit_shiftLeft, Nat.testBit_mod_two_pow,
    Nat.testBit_shiftRight]
  by_cases high : k ≤ i
  · rw [Nat.add_sub_cancel' high]
    simp [high, Nat.not_lt.mpr high]
  · simp [high, Nat.lt_of_not_le high]

theorem join_above (x k low : Nat) :
    (x >>> (low + k)) <<< (k + low) ||| (x >>> low % 2 ^ k) <<< low = (x >>> low) <<< low := by
  rw [Nat.shiftLeft_add, ← Nat.shiftLeft_or_distrib, Nat.shiftRight_add, join]

private theorem shifted32 (x : UInt32) {k : Nat} (byte : k = 8 ∨ k = 16) :
    ((x >>> UInt32.ofNat k).toUInt8.toUInt32 <<< UInt32.ofNat k).toNat =
      (x.toNat >>> k % 2 ^ 8) <<< k := by
  have bound := x.toNat_lt
  rcases byte with rfl | rfl <;>
    simp only [UInt32.toNat_shiftLeft, UInt8.toNat_toUInt32, UInt32.toNat_toUInt8,
      UInt32.toNat_shiftRight, Nat.shiftRight_eq_div_pow, Nat.shiftLeft_eq] <;>
    norm_num <;> omega

private theorem shifted32_high (x : UInt32) :
    ((x >>> 24).toUInt8.toUInt32 <<< 24).toNat = (x.toNat >>> 24) <<< 24 := by
  have bound := x.toNat_lt
  simp only [UInt32.toNat_shiftLeft, UInt8.toNat_toUInt32, UInt32.toNat_toUInt8,
    UInt32.toNat_shiftRight, UInt32.toNat_ofNat, Nat.shiftRight_eq_div_pow, Nat.shiftLeft_eq]
  norm_num
  omega

theorem join32 (x : UInt32) :
    (x >>> 24).toUInt8.toUInt32 <<< 24 ||| (x >>> 16).toUInt8.toUInt32 <<< 16 |||
      (x >>> 8).toUInt8.toUInt32 <<< 8 ||| x.toUInt8.toUInt32 = x := by
  apply UInt32.toNat_inj.mp
  have second : ((x >>> 16).toUInt8.toUInt32 <<< 16).toNat = _ := shifted32 x (Or.inr rfl)
  have third : ((x >>> 8).toUInt8.toUInt32 <<< 8).toNat = _ := shifted32 x (Or.inl rfl)
  rw [UInt32.toNat_or, UInt32.toNat_or, UInt32.toNat_or, shifted32_high, second, third,
    UInt8.toNat_toUInt32, UInt32.toNat_toUInt8, join_above x.toNat 8 16, join_above x.toNat 8 8,
    join]

theorem join16 (x : UInt16) :
    (((x >>> 8).toUInt8.toUInt32 <<< 8).toUInt16.toUInt32 ||| x.toUInt8.toUInt32).toUInt16 = x := by
  have bound := x.toNat_lt
  apply UInt16.toNat_inj.mp
  have high : ((x >>> 8).toUInt8.toUInt32 <<< 8).toUInt16.toUInt32.toNat =
      (x.toNat >>> 8) <<< 8 := by
    simp only [UInt16.toNat_toUInt32, UInt32.toNat_toUInt16, UInt32.toNat_shiftLeft,
      UInt8.toNat_toUInt32, UInt16.toNat_toUInt8, UInt16.toNat_shiftRight, UInt16.toNat_ofNat,
      UInt32.toNat_ofNat, Nat.shiftRight_eq_div_pow, Nat.shiftLeft_eq]
    norm_num
    omega
  rw [UInt32.toNat_toUInt16, UInt32.toNat_or, high, UInt8.toNat_toUInt32, UInt16.toNat_toUInt8,
    join]
  exact Nat.mod_eq_of_lt bound

theorem join64 (x : UInt64) :
    x.toUInt32.toUInt64 ||| (x >>> 32).toUInt32.toUInt64 <<< 32 = x := by
  have bound := x.toNat_lt
  apply UInt64.toNat_inj.mp
  have high : ((x >>> 32).toUInt32.toUInt64 <<< 32).toNat = (x.toNat >>> 32) <<< 32 := by
    simp only [UInt64.toNat_shiftLeft, UInt32.toNat_toUInt64, UInt64.toNat_toUInt32,
      UInt64.toNat_shiftRight, UInt64.toNat_ofNat, Nat.shiftRight_eq_div_pow, Nat.shiftLeft_eq]
    norm_num
    omega
  rw [UInt64.toNat_or, high, UInt32.toNat_toUInt64, UInt64.toNat_toUInt32, Nat.or_comm, join]

def word32 (bytes : List UInt8) : UInt32 :=
  let byte (k : Nat) : UInt32 := (bytes[k]?.getD 0).toUInt32
  byte 0 <<< 24 ||| byte 1 <<< 16 ||| byte 2 <<< 8 ||| byte 3

theorem word32_bytes32 (x : UInt32) (rest : List UInt8) : word32 (bytes32 x ++ rest) = x :=
  join32 x

/-- A byte read as a signed `char` and widened gives its value back under a mask. -/
theorem mask_signed (b : UInt8) : (b.toInt8.toInt32.toUInt32 &&& 0xff) = b.toUInt32 := by
  have all : ∀ n : Fin 256, ((UInt8.ofNat n.val).toInt8.toInt32.toUInt32 &&& 0xff) =
      (UInt8.ofNat n.val).toUInt32 := by decide +kernel
  have here := all ⟨b.toNat, b.toNat_lt⟩
  rwa [UInt8.ofNat_toNat] at here

theorem narrow_signed (b : UInt8) : b.toInt8.toInt32.toUInt32.toUInt8 = b := by
  have all : ∀ n : Fin 256, (UInt8.ofNat n.val).toInt8.toInt32.toUInt32.toUInt8 =
      UInt8.ofNat n.val := by decide +kernel
  have here := all ⟨b.toNat, b.toNat_lt⟩
  rwa [UInt8.ofNat_toNat] at here

theorem split32 (b3 b2 b1 b0 : UInt8) :
    bytes32 (b3.toUInt32 <<< 24 ||| b2.toUInt32 <<< 16 ||| b1.toUInt32 <<< 8 ||| b0.toUInt32) =
      [b3, b2, b1, b0] := by
  unfold bytes32
  simp only [List.cons.injEq, and_true]
  refine ⟨?_, ?_, ?_, ?_⟩ <;> apply UInt8.eq_of_toBitVec_eq <;> ext i below <;> simp <;> grind

theorem mask_narrow (x : UInt32) : x &&& 0xff = x.toUInt8.toUInt32 := by
  apply UInt32.toNat_inj.mp
  rw [UInt32.toNat_and, UInt8.toNat_toUInt32, UInt32.toNat_toUInt8]
  exact Nat.and_two_pow_sub_one_eq_mod _ 8

end CseLab.BigEndian
