import Mathlib.Tactic

/-! Counted loops as folds. A loop whose body may fail is a fold in `Option`;
its rule asks for an invariant indexed by the loop counter. -/

namespace CseLab.Loop

variable {State : Type*}

/-- The loop rule: the body succeeds at every counter below the bound and moves
the invariant on by one, so the loop succeeds and ends in the invariant. -/
theorem foldlM_range {body : State → Nat → Option State} (invariant : Nat → State → Prop)
    {bound : Nat} {state : State} (initially : invariant 0 state)
    (preserved : ∀ counter state, counter < bound → invariant counter state →
      ∃ next, body state counter = some next ∧ invariant (counter + 1) next) :
    ∃ final, (List.range bound).foldlM body state = some final ∧ invariant bound final := by
  induction bound with
  | zero => exact ⟨state, rfl, initially⟩
  | succ bound ih =>
      obtain ⟨middle, looped, holds⟩ := ih (fun counter state below =>
        preserved counter state (Nat.lt_succ_of_lt below))
      obtain ⟨final, taken, holdsFinal⟩ := preserved bound middle (Nat.lt_succ_self bound) holds
      refine ⟨final, ?_, holdsFinal⟩
      rw [List.range_succ, List.foldlM_append, looped]
      simp only [Option.bind_eq_bind, Option.bind_some, List.foldlM_cons, List.foldlM_nil, taken,
        Option.pure_def]

theorem foldlM_range' {body : State → Nat → Option State} (invariant : Nat → State → Prop)
    {first count : Nat} {state : State} (initially : invariant first state)
    (preserved : ∀ counter state, first ≤ counter → counter < first + count →
      invariant counter state →
      ∃ next, body state counter = some next ∧ invariant (counter + 1) next) :
    ∃ final, (List.range' first count).foldlM body state = some final ∧
      invariant (first + count) final := by
  induction count with
  | zero => exact ⟨state, rfl, initially⟩
  | succ count ih =>
      obtain ⟨middle, looped, holds⟩ := ih (fun counter state lower upper =>
        preserved counter state lower (by omega))
      obtain ⟨final, taken, holdsFinal⟩ :=
        preserved (first + count) middle (by omega) (by omega) holds
      refine ⟨final, ?_, holdsFinal⟩
      rw [List.range'_concat, List.foldlM_append, looped]
      simp only [Option.bind_eq_bind, Option.bind_some, List.foldlM_cons, List.foldlM_nil,
        Nat.one_mul, taken, Option.pure_def]

theorem foldl_invariant {Item : Type*} {body : State → Item → State}
    (invariant : State → Prop) {items : List Item} {state : State}
    (initially : invariant state)
    (preserved : ∀ state item, item ∈ items → invariant state → invariant (body state item)) :
    invariant (items.foldl body state) := by
  induction items generalizing state with
  | nil => exact initially
  | cons item rest ih =>
      exact ih (preserved state item List.mem_cons_self initially)
        (fun next other member => preserved next other (List.mem_cons_of_mem item member))

theorem foldlM_each {Item : Type*} {body : State → Item → Option State} {items : List Item}
    {state final : State} (looped : items.foldlM body state = some final) {item : Item}
    (member : item ∈ items) : ∃ middle next, body middle item = some next := by
  induction items generalizing state with
  | nil => exact absurd member List.not_mem_nil
  | cons first rest ih =>
      rw [List.foldlM_cons] at looped
      obtain ⟨next, taken, later⟩ := Option.bind_eq_some_iff.mp looped
      rcases List.mem_cons.mp member with rfl | inside
      · exact ⟨state, next, taken⟩
      · exact ih later inside

theorem foldlM_eq_foldl {Item : Type*} {body : State → Item → Option State}
    {total : State → Item → State} {items : List Item}
    (succeeds : ∀ state item, item ∈ items → body state item = some (total state item))
    (state : State) : items.foldlM body state = some (items.foldl total state) := by
  induction items generalizing state with
  | nil => rfl
  | cons item rest ih =>
      rw [List.foldlM_cons, succeeds state item List.mem_cons_self, List.foldl_cons]
      exact ih (fun next other member => succeeds next other (List.mem_cons_of_mem item member))
        (total state item)

theorem foldlM_lookup {Item Value : Type*} {lookup : Item → Option Value}
    {body : State → Value → State} (items : List Item) (state : State) :
    items.foldlM (fun state item => (lookup item).bind (fun value => some (body state value)))
        state =
      (items.mapM lookup).map (fun values => values.foldl body state) := by
  induction items generalizing state with
  | nil => rfl
  | cons item rest ih =>
      rw [List.foldlM_cons, List.mapM_cons]
      cases found : lookup item with
      | none => rfl
      | some value =>
          change rest.foldlM _ (body state value) = _
          rw [ih]
          cases every : rest.mapM lookup with
          | none => simp
          | some values => simp

theorem foldl_last (condition : Nat → Bool) (initial bound : Nat) :
    IsGreatest {n | n < bound ∧ condition n = true}
        ((List.range bound).foldl (fun last n => if condition n then n else last) initial) ∨
      ∀ n < bound, condition n = false := by
  induction bound with
  | zero => exact .inr (fun n below => absurd below (Nat.not_lt_zero n))
  | succ bound ih =>
      rw [List.range_succ, List.foldl_append]
      simp only [List.foldl_cons, List.foldl_nil]
      cases here : condition bound with
      | true =>
          left
          rw [if_pos rfl]
          exact ⟨⟨Nat.lt_succ_self bound, here⟩, fun n inside => Nat.le_of_lt_succ inside.1⟩
      | false =>
          have below : ∀ n, n < bound + 1 → condition n = true → n < bound := by
            intro n upper holds
            apply Nat.lt_of_le_of_ne (Nat.le_of_lt_succ upper)
            rintro rfl
            rw [here] at holds
            cases holds
          rw [if_neg Bool.false_ne_true]
          rcases ih with greatest | none
          · left
            exact ⟨⟨Nat.lt_succ_of_lt greatest.1.1, greatest.1.2⟩,
              fun n inside => greatest.2 ⟨below n inside.1 inside.2, inside.2⟩⟩
          · right
            intro n upper
            by_contra holds
            rw [Bool.not_eq_false] at holds
            rw [none n (below n upper holds)] at holds
            cases holds

end CseLab.Loop
