import CseLab.Lib.Transition

/-! Programs that share one state and take turns at its atomic operations. A
program is a tree: it has returned, it has failed, or it calls an operation and
goes on with the answer. The proof rule is rely and guarantee: each program
says what it needs the steps of the others to keep, and each step of a program
keeps what the others need, unless the two operations clash. -/

namespace CseLab.Interleaving

open Transition

inductive Script (Op Answer Result : Type) where
  | ret (result : Result)
  | fail
  | call (op : Op) (next : Answer → Script Op Answer Result)

namespace Script

variable {Op Answer State Result Final : Type}

def bind (first : Script Op Answer Result) (rest : Result → Script Op Answer Final) :
    Script Op Answer Final :=
  match first with
  | .ret result => rest result
  | .fail => .fail
  | .call op next => .call op (fun answer => (next answer).bind rest)

instance : Monad (Script Op Answer) where
  pure := .ret
  bind := bind

@[simp] theorem pure_eq (result : Result) : (pure result : Script Op Answer Result) = .ret result :=
  rfl

@[simp] theorem ret_bind (result : Result) (rest : Result → Script Op Answer Final) :
    ((.ret result : Script Op Answer Result) >>= rest) = rest result := rfl

@[simp] theorem fail_bind (rest : Result → Script Op Answer Final) :
    ((.fail : Script Op Answer Result) >>= rest) = .fail := rfl

@[simp] theorem call_bind (op : Op) (next : Answer → Script Op Answer Result)
    (rest : Result → Script Op Answer Final) :
    (.call op next >>= rest) = .call op (fun answer => next answer >>= rest) := rfl

def ofOption : Option Result → Script Op Answer Result
  | none => .fail
  | some result => .ret result

def pending : Script Op Answer Result → Option Op
  | .call op _ => some op
  | _ => none

/-! ### A script on its own -/

/-- The script run to its end with nothing in between; `none` if it fails. -/
def alone (act : State → Op → State × Answer) :
    Script Op Answer Result → State → Option (State × Result)
  | .ret result, state => some (state, result)
  | .fail, _ => none
  | .call op next, state => (next (act state op).2).alone act (act state op).1

variable {act : State → Op → State × Answer}

@[simp] theorem alone_ret (result : Result) (state : State) :
    (ret result : Script Op Answer Result).alone act state = some (state, result) := rfl

@[simp] theorem alone_ofOption (value : Option Result) (state : State) :
    (ofOption value : Script Op Answer Result).alone act state =
      value.map (fun result => (state, result)) := by
  cases value <;> rfl

theorem alone_bind (first : Script Op Answer Result) (rest : Result → Script Op Answer Final)
    (state : State) :
    (first >>= rest).alone act state =
      (first.alone act state).bind (fun after => (rest after.2).alone act after.1) := by
  induction first generalizing state with
  | ret result => rfl
  | fail => rfl
  | call op next ih => exact ih (act state op).2 (act state op).1

theorem alone_map {first : Script Op Answer Result} {state : State}
    {outcome : Option (State × Result)} (ran : first.alone act state = outcome)
    (give : Result → Final) :
    (first >>= fun result => .ret (give result)).alone act state =
      outcome.map (fun after => (after.1, give after.2)) := by
  rw [alone_bind, ran]
  cases outcome <;> rfl

theorem alone_foldlM {Item : Type} (body : Result → Item → Script Op Answer Result)
    (items : List Item) (result : Result) (state : State) :
    (items.foldlM body result).alone act state =
      items.foldlM (fun after item => (body after.2 item).alone act after.1) (state, result) := by
  induction items generalizing result state with
  | nil => rfl
  | cons item rest ih =>
      rw [List.foldlM_cons, List.foldlM_cons, alone_bind]
      cases (body result item).alone act state with
      | none => rfl
      | some after => exact ih after.2 after.1

theorem alone_foldlM_unit {Item : Type} (body : Item → Script Op Answer Unit)
    (items : List Item) (state : State) :
    (items.foldlM (fun _ item => body item) ()).alone act state =
      (items.foldlM (fun state item => ((body item).alone act state).map Prod.fst) state).map
        (fun state => (state, ())) := by
  induction items generalizing state with
  | nil => rfl
  | cons item rest ih =>
      rw [List.foldlM_cons, List.foldlM_cons, alone_bind]
      cases (body item).alone act state with
      | none => rfl
      | some after => exact ih after.1

end Script

/-! ### Scripts side by side -/

structure Pool (Thread State Op Answer Result : Type) where
  state : State
  scripts : Thread → Script Op Answer Result

section Pools

variable {Thread State Op Answer Result : Type} [DecidableEq Thread]

/-- One operation of one thread; none once the thread has returned or failed. -/
def Pool.step (act : State → Op → State × Answer) (s : Pool Thread State Op Answer Result)
    (thread : Thread) : Option (Pool Thread State Op Answer Result) :=
  match s.scripts thread with
  | .call op next =>
      let (state, answer) := act s.state op
      some { state := state, scripts := Function.update s.scripts thread (next answer) }
  | _ => none

def Pool.Clear (clash : Op → Option Op → Prop) (s : Pool Thread State Op Answer Result)
    (thread : Thread) : Prop :=
  ∀ op, (s.scripts thread).pending = some op →
    ∀ other, other ≠ thread → ¬clash op (s.scripts other).pending

instance Pool.Clear.decidable (clash : Op → Option Op → Prop) [Fintype Thread]
    [∀ op pending, Decidable (clash op pending)] (s : Pool Thread State Op Answer Result)
    (thread : Thread) : Decidable (Pool.Clear clash s thread) :=
  match here : (s.scripts thread).pending with
  | none => isTrue (fun _op found => nomatch here.symm.trans found)
  | some op =>
      decidable_of_iff (∀ other, other ≠ thread → ¬clash op (s.scripts other).pending)
        ⟨fun apart _op found => Option.some.inj (here.symm.trans found) ▸ apart,
          fun clear => clear op here⟩

theorem Pool.step_some {act : State → Op → State × Answer}
    {s after : Pool Thread State Op Answer Result} {thread : Thread}
    (taken : s.step act thread = some after) :
    ∃ op next, s.scripts thread = .call op next ∧
      after = { state := (act s.state op).1
                scripts := Function.update s.scripts thread (next (act s.state op).2) } := by
  unfold Pool.step at taken
  split at taken
  · rename_i op next here
    cases taken
    exact ⟨op, next, here, rfl⟩
  · cases taken

end Pools

/-- How threads share a state: the ghost view of it they reason in, which
operations clash, and what a thread may rely on while it is about to call an
operation, or none. -/
structure Discipline (Thread World State Op Answer : Type) where
  act : State → Op → State × Answer
  view : World → State
  clash : Op → Option Op → Prop
  rely : Thread → Option Op → World → World → Prop
  rely_refl : ∀ thread pending world, rely thread pending world world
  rely_trans : ∀ thread pending first second third, rely thread pending first second →
    rely thread pending second third → rely thread pending first third

namespace Discipline

variable {Thread World State Op Answer Result Final : Type}

/-- Whatever the others do between its operations, the script does not fail, its
operations keep what the others rely on, and it returns in the postcondition. -/
def Safe (D : Discipline Thread World State Op Answer) (thread : Thread)
    (post : Result → World → Prop) : Script Op Answer Result → World → Prop
  | .ret result, world => ∀ later, D.rely thread none world later → post result later
  | .fail, _ => False
  | .call op next, world =>
      ∀ later, D.rely thread (some op) world later →
        ∃ after, D.view after = (D.act (D.view later) op).1 ∧
          (∀ other, other ≠ thread → ∀ pending, ¬D.clash op pending →
            D.rely other pending later after) ∧
          D.Safe thread post (next (D.act (D.view later) op).2) after

variable {D : Discipline Thread World State Op Answer} {thread : Thread}

theorem Safe.stable {post : Result → World → Prop} {script : Script Op Answer Result}
    {world later : World} (safe : D.Safe thread post script world)
    (relied : D.rely thread script.pending world later) : D.Safe thread post script later := by
  cases script with
  | ret result =>
      intro last reached
      exact safe last (D.rely_trans _ _ _ _ _ relied reached)
  | fail => exact safe
  | call op next =>
      intro last reached
      exact safe last (D.rely_trans _ _ _ _ _ relied reached)

theorem Safe.ret {post : Result → World → Prop} {result : Result} {world : World}
    (holds : post result world)
    (stable : ∀ later, D.rely thread none world later → post result world → post result later) :
    D.Safe thread post (.ret result) world :=
  fun later relied => stable later relied holds

theorem Safe.bind (middle : Result → World → Prop) {post : Final → World → Prop}
    {first : Script Op Answer Result} {rest : Result → Script Op Answer Final} {world : World}
    (safe : D.Safe thread middle first world)
    (goes : ∀ result later, middle result later → D.Safe thread post (rest result) later) :
    D.Safe thread post (first >>= rest) world := by
  induction first generalizing world with
  | ret result => exact goes result world (safe world (D.rely_refl _ _ _))
  | fail => exact safe.elim
  | call op next ih =>
      intro later relied
      obtain ⟨after, viewed, kept, safeNext⟩ := safe later relied
      exact ⟨after, viewed, kept, ih _ safeNext⟩

theorem Safe.weaken {strong weak : Result → World → Prop} {script : Script Op Answer Result}
    {world : World} (safe : D.Safe thread strong script world)
    (implies : ∀ result later, strong result later → weak result later) :
    D.Safe thread weak script world := by
  induction script generalizing world with
  | ret result => exact fun later relied => implies result later (safe later relied)
  | fail => exact safe
  | call op next ih =>
      intro later relied
      obtain ⟨after, viewed, kept, safeNext⟩ := safe later relied
      exact ⟨after, viewed, kept, ih _ safeNext⟩

/-- The loop rule: an invariant indexed by the counter, which the others keep
and each turn of the loop moves on by one. -/
theorem Safe.foldlM_range' {body : Result → Nat → Script Op Answer Result}
    (invariant : Nat → Result → World → Prop)
    (stable : ∀ counter result world later, D.rely thread none world later →
      invariant counter result world → invariant counter result later)
    {first count : Nat} {result : Result} {world : World}
    (initially : invariant first result world)
    (preserved : ∀ counter result world, first ≤ counter → counter < first + count →
      invariant counter result world →
      D.Safe thread (invariant (counter + 1)) (body result counter) world) :
    D.Safe thread (invariant (first + count)) ((List.range' first count).foldlM body result)
      world := by
  induction count generalizing first result world with
  | zero =>
      intro later relied
      exact stable _ _ _ _ relied initially
  | succ count ih =>
      rw [List.range'_succ, List.foldlM_cons]
      apply Safe.bind _ (preserved first result world (Nat.le_refl _) (by omega) initially)
      intro next later holds
      have shifted : first + (count + 1) = first + 1 + count := by omega
      rw [shifted]
      exact ih holds (fun counter result world lower upper =>
        preserved counter result world (by omega) (by omega))

theorem Safe.foldlM_range {body : Result → Nat → Script Op Answer Result}
    (invariant : Nat → Result → World → Prop)
    (stable : ∀ counter result world later, D.rely thread none world later →
      invariant counter result world → invariant counter result later)
    {count : Nat} {result : Result} {world : World} (initially : invariant 0 result world)
    (preserved : ∀ counter result world, counter < count → invariant counter result world →
      D.Safe thread (invariant (counter + 1)) (body result counter) world) :
    D.Safe thread (invariant count) ((List.range count).foldlM body result) world := by
  have loop : D.Safe thread (invariant (0 + count)) ((List.range' 0 count).foldlM body result)
      world :=
    Safe.foldlM_range' invariant stable initially
      (fun counter result world _lower upper => preserved counter result world (by omega))
  rw [Nat.zero_add] at loop
  rw [List.range_eq_range']
  exact loop

def Holds (D : Discipline Thread World State Op Answer) (post : Thread → Result → World → Prop)
    (s : Pool Thread State Op Answer Result) : Prop :=
  ∃ world, D.view world = s.state ∧ ∀ thread, D.Safe thread (post thread) (s.scripts thread) world

theorem Holds.returned {post : Thread → Result → World → Prop}
    {s : Pool Thread State Op Answer Result} (holds : D.Holds post s)
    (finished : ∀ thread, (s.scripts thread).pending = none) :
    ∃ world, D.view world = s.state ∧
      ∀ thread, ∃ result, s.scripts thread = .ret result ∧ post thread result world := by
  obtain ⟨world, viewed, safe⟩ := holds
  refine ⟨world, viewed, fun thread => ?_⟩
  have mine := safe thread
  have idle := finished thread
  cases here : s.scripts thread with
  | ret result =>
      rw [here] at mine
      exact ⟨result, rfl, mine world (D.rely_refl _ _ _)⟩
  | fail =>
      rw [here] at mine
      exact mine.elim
  | call op next =>
      rw [here] at idle
      cases idle

variable [DecidableEq Thread]

theorem Holds.step {post : Thread → Result → World → Prop}
    {s after : Pool Thread State Op Answer Result} (holds : D.Holds post s)
    (clear : s.Clear D.clash thread) (taken : s.step D.act thread = some after) :
    D.Holds post after := by
  obtain ⟨world, viewed, safe⟩ := holds
  obtain ⟨op, next, here, rfl⟩ := Pool.step_some taken
  have mine := safe thread
  rw [here] at mine
  obtain ⟨later, moved, kept, safeNext⟩ := mine world (D.rely_refl _ _ _)
  rw [viewed] at moved safeNext
  refine ⟨later, moved, fun other => ?_⟩
  by_cases same : other = thread
  · subst same
    simp only [Function.update_self]
    exact safeNext
  · simp only [Function.update_of_ne same]
    have apart := clear op (by rw [here]; rfl) other same
    exact (safe other).stable (kept other same _ apart)

/-- Along a run without clashes every thread stays safe. -/
theorem Holds.run {post : Thread → Result → World → Prop}
    {s final : Pool Thread State Op Answer Result} {schedule : List Thread}
    (holds : D.Holds post s)
    (guarded : Guarded (Pool.step D.act) (Pool.Clear D.clash) s schedule)
    (ran : run (Pool.step D.act) s schedule = some final) : D.Holds post final :=
  guarded.invariant (fun _state _thread _next held clear taken => held.step clear taken) holds ran

end Discipline

end CseLab.Interleaving
