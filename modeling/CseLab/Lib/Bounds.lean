import Mathlib.Tactic

/-! Accesses of a C program to the blocks of memory it holds: where in a block,
how many bytes, and how many the block has. -/

namespace CseLab.Bounds

def sizeT (x : Int) : Nat := (x % 2 ^ 64).toNat

theorem sizeT_nonneg {x : Int} (lower : 0 ≤ x) (upper : x < 2 ^ 64) : (sizeT x : Int) = x := by
  unfold sizeT
  omega

theorem sizeT_neg {x : Int} (lower : -2 ^ 64 ≤ x) (upper : x < 0) :
    (sizeT x : Int) = x + 2 ^ 64 := by
  unfold sizeT
  omega

/-- `malloc`: the capacity of the block. No object is larger than `PTRDIFF_MAX`. -/
def malloc (size : Nat) : Option Nat := if size < 2 ^ 63 then some size else none

theorem malloc_some {size : Nat} (small : size < 2 ^ 63) : malloc size = some size := if_pos small

theorem malloc_none {size : Nat} (large : 2 ^ 63 ≤ size) : malloc size = none :=
  if_neg (Nat.not_lt.mpr large)

/-- `count` bytes from `offset` on, in a block of `capacity` bytes. -/
structure Access where
  offset : Nat
  count : Nat
  capacity : Nat
deriving DecidableEq

def Access.Fits (a : Access) : Prop := a.offset + a.count ≤ a.capacity

instance (a : Access) : Decidable a.Fits := inferInstanceAs (Decidable (_ ≤ _))

end CseLab.Bounds
