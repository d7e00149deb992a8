import Mathlib.Tactic

/-! Lists of slots, of which a step changes or adds one: where a slot of the new
list comes from, and which slots of the old one are still there. -/

namespace CseLab.Slots

variable {Slot : Type*} {slots : List Slot} {index other : Nat} {old new x : Slot}

theorem slot_set_self (here : slots[index]? = some old) :
    (slots.set index new)[index]? = some new :=
  List.getElem?_set_self (List.getElem?_eq_some_iff.mp here).1

theorem slot_set_cases (there : (slots.set index new)[other]? = some x) :
    (other = index ∧ x = new) ∨ (other ≠ index ∧ slots[other]? = some x) := by
  rw [List.getElem?_set] at there
  by_cases same : index = other
  · rw [if_pos same] at there
    split at there
    · exact .inl ⟨same.symm, (Option.some.inj there).symm⟩
    · cases there
  · rw [if_neg same] at there
    exact .inr ⟨fun eq => same eq.symm, there⟩

theorem slot_concat_cases {last : Slot} (there : (slots ++ [last])[index]? = some x) :
    slots[index]? = some x ∨ x = last := by
  rcases Nat.lt_or_ge index slots.length with inside | outside
  · rw [List.getElem?_append_left inside] at there
    exact .inl there
  · rw [List.getElem?_append_right outside] at there
    exact .inr (List.mem_singleton.mp (List.mem_of_getElem? there))

theorem mem_set_self (here : slots[index]? = some old) : new ∈ slots.set index new :=
  List.mem_of_getElem? (slot_set_self here)

theorem not_mem_set (before : x ∉ slots) (other : new ≠ x) : x ∉ slots.set index new := by
  intro member
  rcases List.mem_or_eq_of_mem_set member with inside | same
  · exact before inside
  · exact other same.symm

theorem eq_or_mem_set (here : slots[index]? = some old) (member : x ∈ slots) :
    x = old ∨ x ∈ slots.set index new := by
  obtain ⟨other, there⟩ := List.mem_iff_getElem?.mp member
  by_cases same : index = other
  · subst same
    cases here.symm.trans there
    exact .inl rfl
  · refine .inr (List.mem_of_getElem? (i := other) ?_)
    rw [List.getElem?_set_ne same]
    exact there

theorem exists_mem_set (property : Slot → Prop) (here : slots[index]? = some old)
    (kept : property old → property new) (some' : ∃ x ∈ slots, property x) :
    ∃ x ∈ slots.set index new, property x := by
  obtain ⟨x, member, holds⟩ := some'
  rcases eq_or_mem_set here member with rfl | stays
  · exact ⟨new, mem_set_self here, kept holds⟩
  · exact ⟨x, stays, holds⟩

end CseLab.Slots
