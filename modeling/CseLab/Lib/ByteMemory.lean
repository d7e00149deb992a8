import Mathlib.Tactic

/-! Byte-addressed memory with little-endian words, as a C program sees the
buffers it allocates. A memory has no length of its own; a caller that respects
a buffer's length says so itself. -/

namespace CseLab.ByteMemory

abbrev Memory := Nat → UInt8

def memcpy (target : Memory) (base : Nat) (source : Memory) (count : Nat) : Memory :=
  fun address =>
    if base ≤ address ∧ address < base + count then source (address - base)
    else target address

def shift (memory : Memory) (base : Nat) : Memory := fun address => memory (base + address)

def load16 (memory : Memory) (base : Nat) : UInt16 :=
  UInt16.ofNat ((memory base).toNat + 256 * (memory (base + 1)).toNat)

def load32 (memory : Memory) (base : Nat) : UInt32 :=
  UInt32.ofNat ((memory base).toNat + 256 * (memory (base + 1)).toNat +
    65536 * (memory (base + 2)).toNat + 16777216 * (memory (base + 3)).toNat)

def store16 (memory : Memory) (base : Nat) (value : UInt16) : Memory :=
  fun address =>
    if base ≤ address ∧ address < base + 2 then
      UInt8.ofNat (value.toNat / 256 ^ (address - base))
    else memory address

def store32 (memory : Memory) (base : Nat) (value : UInt32) : Memory :=
  fun address =>
    if base ≤ address ∧ address < base + 4 then
      UInt8.ofNat (value.toNat / 256 ^ (address - base))
    else memory address

theorem memcpy_inside {target source : Memory} {base count address : Nat}
    (lower : base ≤ address) (upper : address < base + count) :
    memcpy target base source count address = source (address - base) :=
  if_pos ⟨lower, upper⟩

theorem memcpy_outside {target source : Memory} {base count address : Nat}
    (outside : address < base ∨ base + count ≤ address) :
    memcpy target base source count address = target address := by
  unfold memcpy
  exact if_neg (by omega)

theorem store16_outside {memory : Memory} {base address : Nat} {value : UInt16}
    (outside : address < base ∨ base + 2 ≤ address) :
    store16 memory base value address = memory address := by
  unfold store16
  exact if_neg (by omega)

theorem store32_outside {memory : Memory} {base address : Nat} {value : UInt32}
    (outside : address < base ∨ base + 4 ≤ address) :
    store32 memory base value address = memory address := by
  unfold store32
  exact if_neg (by omega)

theorem load16_congr {left right : Memory} (base : Nat)
    (same : ∀ address, base ≤ address → address < base + 2 → left address = right address) :
    load16 left base = load16 right base := by
  unfold load16
  rw [same base (by omega) (by omega), same (base + 1) (by omega) (by omega)]

theorem load32_congr {left right : Memory} (base : Nat)
    (same : ∀ address, base ≤ address → address < base + 4 → left address = right address) :
    load32 left base = load32 right base := by
  unfold load32
  rw [same base (by omega) (by omega), same (base + 1) (by omega) (by omega),
    same (base + 2) (by omega) (by omega), same (base + 3) (by omega) (by omega)]

theorem load32_shift (memory : Memory) (base offset : Nat) :
    load32 (shift memory base) offset = load32 memory (base + offset) := rfl

theorem load32_upper {memory : Memory} {base : Nat} (small : (load32 memory base).toNat < 32768) :
    memory (base + 2) = 0 ∧ memory (base + 3) = 0 := by
  have first := (memory base).toNat_lt
  have second := (memory (base + 1)).toNat_lt
  have third := (memory (base + 2)).toNat_lt
  have fourth := (memory (base + 3)).toNat_lt
  unfold load32 at small
  rw [UInt32.toNat_ofNat'] at small
  exact ⟨UInt8.toNat_inj.mp (show _ = 0 by omega), UInt8.toNat_inj.mp (show _ = 0 by omega)⟩

theorem load16_store16 (memory : Memory) (base : Nat) (value : UInt16) :
    load16 (store16 memory base value) base = value := by
  have bound := value.toNat_lt
  have byte0 : store16 memory base value base = UInt8.ofNat value.toNat := by
    simp [store16]
  have byte1 : store16 memory base value (base + 1) = UInt8.ofNat (value.toNat / 256) := by
    simp [store16]
  unfold load16
  rw [byte0, byte1]
  apply UInt16.toNat_inj.mp
  simp only [UInt16.toNat_ofNat', UInt8.toNat_ofNat']
  omega

theorem load32_store32 (memory : Memory) (base : Nat) (value : UInt32) :
    load32 (store32 memory base value) base = value := by
  have bound := value.toNat_lt
  have byte0 : store32 memory base value base = UInt8.ofNat value.toNat := by
    simp [store32]
  have byte1 : store32 memory base value (base + 1) = UInt8.ofNat (value.toNat / 256) := by
    simp [store32]
  have byte2 : store32 memory base value (base + 2) =
      UInt8.ofNat (value.toNat / 65536) := by
    simp [store32]
  have byte3 : store32 memory base value (base + 3) =
      UInt8.ofNat (value.toNat / 16777216) := by
    simp [store32]
  unfold load32
  rw [byte0, byte1, byte2, byte3]
  apply UInt32.toNat_inj.mp
  simp only [UInt32.toNat_ofNat', UInt8.toNat_ofNat']
  omega

theorem load32_store32_disjoint {memory : Memory} {base other : Nat} {value : UInt32}
    (disjoint : other + 4 ≤ base ∨ base + 4 ≤ other) :
    load32 (store32 memory base value) other = load32 memory other :=
  load32_congr other (fun _address _lower _upper => store32_outside (by omega))

/-! ### Runs of bytes -/

def Holds (memory : Memory) (base : Nat) (bytes : List UInt8) : Prop :=
  ∀ k, k < bytes.length → memory (base + k) = bytes[k]?.getD 0

theorem holds_nil (memory : Memory) (base : Nat) : Holds memory base [] :=
  fun k below => absurd below (Nat.not_lt_zero k)

theorem holds_singleton {memory : Memory} {base : Nat} {byte : UInt8} :
    Holds memory base [byte] ↔ memory base = byte := by
  constructor
  · intro holds
    exact holds 0 (Nat.zero_lt_one)
  · intro here k below
    rw [List.length_singleton, Nat.lt_one_iff] at below
    rw [below]
    exact here

theorem holds_append {memory : Memory} {base : Nat} {first second : List UInt8} :
    Holds memory base (first ++ second) ↔
      Holds memory base first ∧ Holds memory (base + first.length) second := by
  constructor
  · intro holds
    constructor
    · intro k below
      have here := holds k (by rw [List.length_append]; omega)
      rwa [List.getElem?_append_left below] at here
    · intro k below
      have here := holds (first.length + k) (by rw [List.length_append]; omega)
      rwa [List.getElem?_append_right (Nat.le_add_right _ _), Nat.add_sub_cancel_left,
        ← Nat.add_assoc] at here
  · rintro ⟨holdsFirst, holdsSecond⟩ k below
    rw [List.length_append] at below
    by_cases early : k < first.length
    · rw [List.getElem?_append_left early]
      exact holdsFirst k early
    · have late : first.length ≤ k := Nat.not_lt.mp early
      rw [List.getElem?_append_right late, ← holdsSecond (k - first.length) (by omega)]
      congr 1
      omega

theorem Holds.congr {left right : Memory} {base : Nat} {bytes : List UInt8}
    (holds : Holds left base bytes)
    (same : ∀ address, base ≤ address → address < base + bytes.length →
      right address = left address) : Holds right base bytes := by
  intro k below
  rw [same (base + k) (by omega) (by omega)]
  exact holds k below

end CseLab.ByteMemory
