import Mathlib.Tactic

/-! Lists kept in the order of a key, from which elements leave at the front:
windows of identifiers. Nothing here names a particular program. -/

namespace CseLab.OrderedWindow

variable {Element Key : Type*} [LinearOrder Key] (key : Element → Key)

/-- In front of the first element with a greater key, or at the end. -/
def insertByKey (x : Element) : List Element → List Element
  | [] => [x]
  | y :: ys => if key x < key y then x :: y :: ys else y :: insertByKey x ys

variable {key}

@[simp] theorem mem_insertByKey {x y : Element} {ys : List Element} :
    y ∈ insertByKey key x ys ↔ y = x ∨ y ∈ ys := by
  induction ys with
  | nil => simp [insertByKey]
  | cons head tail ih =>
      unfold insertByKey
      by_cases before : key x < key head
      · rw [if_pos before]
        exact List.mem_cons
      · rw [if_neg before, List.mem_cons, List.mem_cons, ih]
        exact or_left_comm

theorem insertByKey_sorted (key : Element → Key) (x : Element) {ys : List Element}
    (sorted : ys.Pairwise (fun a b => key a ≤ key b)) :
    (insertByKey key x ys).Pairwise (fun a b => key a ≤ key b) := by
  induction ys with
  | nil => exact List.pairwise_singleton _ _
  | cons head tail ih =>
      have ⟨least, rest⟩ := List.pairwise_cons.mp sorted
      unfold insertByKey
      by_cases before : key x < key head
      · rw [if_pos before]
        refine List.pairwise_cons.mpr ⟨?_, sorted⟩
        intro y member
        rcases List.mem_cons.mp member with rfl | inside
        · exact before.le
        · exact before.le.trans (least y inside)
      · rw [if_neg before]
        refine List.pairwise_cons.mpr ⟨?_, ih rest⟩
        intro y member
        rcases mem_insertByKey.mp member with rfl | inside
        · exact not_lt.mp before
        · exact least y inside

theorem insertByKey_strict (key : Element → Key) {x : Element} {ys : List Element}
    (sorted : ys.Pairwise (fun a b => key a < key b)) (fresh : ∀ y ∈ ys, key y ≠ key x) :
    (insertByKey key x ys).Pairwise (fun a b => key a < key b) := by
  induction ys with
  | nil => exact List.pairwise_singleton _ _
  | cons head tail ih =>
      have ⟨least, rest⟩ := List.pairwise_cons.mp sorted
      unfold insertByKey
      by_cases before : key x < key head
      · rw [if_pos before]
        refine List.pairwise_cons.mpr ⟨?_, sorted⟩
        intro y member
        rcases List.mem_cons.mp member with rfl | inside
        · exact before
        · exact before.trans (least y inside)
      · rw [if_neg before]
        refine List.pairwise_cons.mpr ⟨?_, ih rest (fun y inside => fresh y (List.mem_cons_of_mem _ inside))⟩
        intro y member
        rcases mem_insertByKey.mp member with rfl | inside
        · exact lt_of_le_of_ne (not_lt.mp before) (fresh head List.mem_cons_self)
        · exact least y inside

/-! ### The front -/

theorem mem_dropWhile_lt {bound : Key} {x : Element} {xs : List Element}
    (sorted : xs.Pairwise (fun a b => key a ≤ key b)) :
    x ∈ xs.dropWhile (fun y => decide (key y < bound)) ↔ x ∈ xs ∧ bound ≤ key x := by
  induction xs with
  | nil => simp
  | cons head tail ih =>
      have ⟨least, rest⟩ := List.pairwise_cons.mp sorted
      by_cases below : key head < bound
      · rw [List.dropWhile_cons_of_pos (p := fun y => decide (key y < bound)) (decide_eq_true below),
          ih rest, List.mem_cons]
        constructor
        · exact fun ⟨inside, reaches⟩ => ⟨Or.inr inside, reaches⟩
        · rintro ⟨rfl | inside, reaches⟩
          · exact absurd below (not_lt.mpr reaches)
          · exact ⟨inside, reaches⟩
      · rw [List.dropWhile_cons_of_neg (by rwa [decide_eq_true_iff])]
        refine ⟨fun member => ⟨member, ?_⟩, fun both => both.1⟩
        rcases List.mem_cons.mp member with rfl | inside
        · exact not_lt.mp below
        · exact (not_lt.mp below).trans (least x inside)

theorem head_le {front x : Element} {xs : List Element}
    (sorted : xs.Pairwise (fun a b => key a ≤ key b)) (first : xs.head? = some front)
    (member : x ∈ xs) : key front ≤ key x := by
  cases xs with
  | nil => cases first
  | cons head tail =>
      cases first
      rcases List.mem_cons.mp member with rfl | inside
      · exact le_refl _
      · exact (List.pairwise_cons.mp sorted).1 x inside

theorem strict_sorted (key : Element → Key) {xs : List Element}
    (strict : xs.Pairwise (fun a b => key a < key b)) :
    xs.Pairwise (fun a b => key a ≤ key b) :=
  strict.imp le_of_lt

end CseLab.OrderedWindow
