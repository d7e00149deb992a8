import Mathlib.Tactic

/-! Runs of a system that takes one action at a time. A step is a partial
function: an action the system cannot take at a state, or whose effect is
undefined there, has no successor. Nothing here names a particular system. -/

namespace CseLab.Transition

variable {State Action : Type*} (step : State → Action → Option State)

def run : State → List Action → Option State
  | state, [] => some state
  | state, action :: rest => (step state action).bind (fun next => run next rest)

def Reachable (start state : State) : Prop :=
  ∃ actions, run step start actions = some state

/-- Every action of the run is taken at a state where it meets the guard. -/
def Guarded (guard : State → Action → Prop) : State → List Action → Prop
  | _, [] => True
  | state, action :: rest =>
      guard state action ∧ ∀ next, step state action = some next → Guarded guard next rest

instance Guarded.decidable (guard : State → Action → Prop)
    [tests : ∀ state action, Decidable (guard state action)] :
    (state : State) → (actions : List Action) → Decidable (Guarded step guard state actions)
  | _, [] => isTrue trivial
  | state, action :: rest =>
      match taken : step state action with
      | none =>
          decidable_of_iff (guard state action)
            ⟨fun met => ⟨met, fun _next found => nomatch taken.symm.trans found⟩, And.left⟩
      | some next =>
          have := Guarded.decidable guard next rest
          decidable_of_iff (guard state action ∧ Guarded step guard next rest)
            (and_congr_right fun _met =>
              ⟨fun tail _other same => Option.some.inj (taken.symm.trans same) ▸ tail,
                fun every => every next taken⟩)

def Throughout (good : State → Prop) : State → List Action → Prop
  | state, [] => good state
  | state, action :: rest =>
      good state ∧ ∀ next, step state action = some next → Throughout good next rest

variable {step}

@[simp] theorem run_nil (state : State) : run step state [] = some state := rfl

theorem run_cons (state : State) (action : Action) (rest : List Action) :
    run step state (action :: rest) =
      (step state action).bind (fun next => run step next rest) := rfl

theorem run_append (state : State) (first second : List Action) :
    run step state (first ++ second) =
      (run step state first).bind (fun middle => run step middle second) := by
  induction first generalizing state with
  | nil => rfl
  | cons action rest ih =>
      rw [List.cons_append, run_cons, run_cons, Option.bind_assoc]
      congr 1
      funext next
      exact ih next

theorem run_cons_eq_some {state final : State} {action : Action} {rest : List Action}
    (ran : run step state (action :: rest) = some final) :
    ∃ next, step state action = some next ∧ run step next rest = some final :=
  Option.bind_eq_some_iff.mp ran

theorem Reachable.refl (start : State) : Reachable step start start := ⟨[], rfl⟩

theorem Reachable.next {start state next : State} {action : Action}
    (reached : Reachable step start state) (taken : step state action = some next) :
    Reachable step start next := by
  obtain ⟨actions, ran⟩ := reached
  refine ⟨actions ++ [action], ?_⟩
  rw [run_append, ran, Option.bind_some, run_cons, taken]
  rfl

/-- What one step preserves, a whole run preserves. -/
theorem run_invariant {invariant : State → Prop}
    (preserved : ∀ state action next,
      invariant state → step state action = some next → invariant next)
    {state final : State} {actions : List Action}
    (holds : invariant state) (ran : run step state actions = some final) :
    invariant final := by
  induction actions generalizing state with
  | nil =>
      cases ran
      exact holds
  | cons action rest ih =>
      obtain ⟨next, taken, tail⟩ := run_cons_eq_some ran
      exact ih (preserved state action next holds taken) tail

theorem Reachable.invariant {invariant : State → Prop}
    (preserved : ∀ state action next,
      invariant state → step state action = some next → invariant next)
    {start state : State} (initially : invariant start)
    (reached : Reachable step start state) : invariant state := by
  obtain ⟨actions, ran⟩ := reached
  exact run_invariant preserved initially ran

theorem Guarded.invariant {guard : State → Action → Prop} {invariant : State → Prop}
    (preserved : ∀ state action next, invariant state → guard state action →
      step state action = some next → invariant next)
    {state final : State} {actions : List Action}
    (guarded : Guarded step guard state actions) (holds : invariant state)
    (ran : run step state actions = some final) : invariant final := by
  induction actions generalizing state with
  | nil =>
      cases ran
      exact holds
  | cons action rest ih =>
      obtain ⟨next, taken, tail⟩ := run_cons_eq_some ran
      exact ih (guarded.2 next taken) (preserved state action next holds guarded.1 taken) tail

theorem Guarded.ofForall {condition : Action → Prop} {state : State} {actions : List Action}
    (every : ∀ action ∈ actions, condition action) :
    Guarded step (fun _state action => condition action) state actions := by
  induction actions generalizing state with
  | nil => trivial
  | cons action rest ih =>
      exact ⟨every action List.mem_cons_self,
        fun _next _taken => ih (fun later member => every later (List.mem_cons_of_mem _ member))⟩

theorem Guarded.mono {guard other : State → Action → Prop}
    (weaker : ∀ state action, guard state action → other state action) {state : State}
    {actions : List Action} (guarded : Guarded step guard state actions) :
    Guarded step other state actions := by
  induction actions generalizing state with
  | nil => trivial
  | cons action rest ih =>
      exact ⟨weaker state action guarded.1, fun next taken => ih (guarded.2 next taken)⟩

theorem Guarded.and {guard other : State → Action → Prop} {state : State} {actions : List Action}
    (left : Guarded step guard state actions) (right : Guarded step other state actions) :
    Guarded step (fun state action => guard state action ∧ other state action) state actions := by
  induction actions generalizing state with
  | nil => trivial
  | cons action rest ih =>
      exact ⟨⟨left.1, right.1⟩, fun next taken => ih (left.2 next taken) (right.2 next taken)⟩

theorem Guarded.append {guard : State → Action → Prop} {state : State} {first second : List Action}
    (guarded : Guarded step guard state first)
    (later : ∀ middle, run step state first = some middle → Guarded step guard middle second) :
    Guarded step guard state (first ++ second) := by
  induction first generalizing state with
  | nil => exact later state rfl
  | cons action rest ih =>
      refine ⟨guarded.1, fun next taken => ih (guarded.2 next taken) fun middle ran => ?_⟩
      apply later middle
      rw [run_cons, taken, Option.bind_some, ran]

theorem Guarded.append_left {guard : State → Action → Prop} {state : State}
    {first second : List Action} (guarded : Guarded step guard state (first ++ second)) :
    Guarded step guard state first := by
  induction first generalizing state with
  | nil => trivial
  | cons action rest ih =>
      exact ⟨guarded.1, fun next taken => ih (guarded.2 next taken)⟩

theorem Guarded.append_right {guard : State → Action → Prop} {state middle : State}
    {first second : List Action} (guarded : Guarded step guard state (first ++ second))
    (ran : run step state first = some middle) : Guarded step guard middle second := by
  induction first generalizing state with
  | nil =>
      cases ran
      exact guarded
  | cons action rest ih =>
      obtain ⟨next, taken, tail⟩ := run_cons_eq_some ran
      exact ih (guarded.2 next taken) tail

theorem Throughout.good {good : State → Prop} {state : State} {actions : List Action}
    (all : Throughout step good state actions) : good state := by
  cases actions with
  | nil => exact all
  | cons action rest => exact all.1

/-- Where each step leads from a good state to a good one if and only if it meets
the guard, a run has good states only if and only if it is guarded. -/
theorem throughout_iff_guarded {invariant good : State → Prop} {guard : State → Action → Prop}
    (preserved : ∀ state action next,
      invariant state → step state action = some next → invariant next)
    (exact_guard : ∀ state action next, invariant state → good state →
      step state action = some next → (good next ↔ guard state action))
    {state final : State} {actions : List Action} (holds : invariant state)
    (initially : good state) (ran : run step state actions = some final) :
    Throughout step good state actions ↔ Guarded step guard state actions := by
  induction actions generalizing state with
  | nil => exact ⟨fun _ => trivial, fun _ => initially⟩
  | cons action rest ih =>
      obtain ⟨next, taken, tail⟩ := run_cons_eq_some ran
      have here := exact_guard state action next holds initially taken
      constructor
      · intro all
        refine ⟨here.mp (all.2 next taken).good, fun other same => ?_⟩
        cases taken.symm.trans same
        exact (ih (preserved state action next holds taken) (all.2 next taken).good tail).mp
          (all.2 next taken)
      · intro guarded
        refine ⟨initially, fun other same => ?_⟩
        cases taken.symm.trans same
        exact (ih (preserved state action next holds taken) (here.mpr guarded.1) tail).mpr
          (guarded.2 next taken)

end CseLab.Transition
