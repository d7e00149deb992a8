import Mathlib.Tactic
import Mathlib.Data.Set.Card

/-! Counting the holders of a thing: slots of a list that satisfy a test, and
keys of a table that lead to it. Each law gives the count after a change of one
slot or of one key. -/

namespace CseLab.Counting

variable {Slot Key Value : Type*}

theorem countP_set_add {test : Slot → Bool} {slots : List Slot} {index : Nat} {old new : Slot}
    (here : slots[index]? = some old) :
    (slots.set index new).countP test + (if test old then 1 else 0) =
      slots.countP test + (if test new then 1 else 0) := by
  obtain ⟨inside, rfl⟩ := List.getElem?_eq_some_iff.mp here
  have counted := List.boole_getElem_le_countP (p := test) inside
  rw [List.countP_set inside]
  omega

theorem count_set_add [BEq Slot] {slots : List Slot} {index : Nat} {old : Slot} (new x : Slot)
    (here : slots[index]? = some old) :
    (slots.set index new).count x + (if old == x then 1 else 0) =
      slots.count x + (if new == x then 1 else 0) :=
  countP_set_add here

theorem count_eraseIdx_add [BEq Slot] [LawfulBEq Slot] {slots : List Slot} {index : Nat}
    {old : Slot} (here : slots[index]? = some old) (x : Slot) :
    (slots.eraseIdx index).count x + (if old == x then 1 else 0) = slots.count x := by
  obtain ⟨inside, rfl⟩ := List.getElem?_eq_some_iff.mp here
  rw [← (List.getElem_cons_eraseIdx_perm inside).count_eq x, List.count_cons]

noncomputable def keys (table : Key → Option Value) (value : Value) : Nat :=
  Set.ncard {key | table key = some value}

theorem keys_none (value : Value) : keys (fun _ : Key => none) value = 0 := by
  unfold keys
  have empty : {key : Key | (none : Option Value) = some value} = ∅ := by
    ext key
    simp
  rw [empty, Set.ncard_empty]

private theorem keys_split [Finite Key] [DecidableEq Value] (table : Key → Option Value) (key : Key)
    (value : Value) :
    keys table value = Set.ncard {other | other ≠ key ∧ table other = some value} +
      (if table key = some value then 1 else 0) := by
  unfold keys
  by_cases leads : table key = some value
  · rw [if_pos leads]
    have whole : {other | table other = some value} =
        insert key {other | other ≠ key ∧ table other = some value} := by
      ext other
      by_cases same : other = key
      · simp [same, leads]
      · simp [same]
    rw [whole, Set.ncard_insert_of_notMem (by simp) (Set.toFinite _)]
  · rw [if_neg leads]
    congr 1
    ext other
    by_cases same : other = key
    · simp [same, leads]
    · simp [same]

theorem keys_update_add [Finite Key] [DecidableEq Key] [DecidableEq Value]
    (table : Key → Option Value) (key : Key) (entry : Option Value) (value : Value) :
    keys (Function.update table key entry) value + (if table key = some value then 1 else 0) =
      keys table value + (if entry = some value then 1 else 0) := by
  have others : {other | other ≠ key ∧ Function.update table key entry other = some value} =
      {other | other ≠ key ∧ table other = some value} := by
    ext other
    by_cases same : other = key
    · simp [same]
    · simp [same]
  rw [keys_split (Function.update table key entry) key value, keys_split table key value, others,
    Function.update_self]
  omega

end CseLab.Counting
