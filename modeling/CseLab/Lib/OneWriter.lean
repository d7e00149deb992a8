import CseLab.Lib.Interleaving

/-! One script that writes beside any number that only read. What the writer keeps in
every state that it goes through on its own is all that the readers ever find, so each
reader returns what it would return before the writer or after it. -/

namespace CseLab.Interleaving

open Transition

variable {Op Answer State Result Final : Type} {act : State → Op → State × Answer}

namespace Script

theorem alone_ended {script : Script Op Answer Result} {state : State}
    (ended : script.pending = none) {outcome : Option (State × Result)}
    (ran : script.alone act state = outcome) {after : State} {result : Result}
    (ends : outcome = some (after, result)) : script = .ret result ∧ state = after := by
  rw [ends] at ran
  cases script with
  | ret answer =>
      cases ran
      exact ⟨rfl, rfl⟩
  | fail => cases ran
  | call op next => cases ended

/-! ### What a writer keeps -/

/-- The predicate holds in every state that the script goes through on its own. -/
def Always (act : State → Op → State × Answer) (kept : State → Prop) :
    Script Op Answer Result → State → Prop
  | .ret _, state => kept state
  | .fail, state => kept state
  | .call op next, state =>
      kept state ∧ (next (act state op).2).Always act kept (act state op).1

variable {kept : State → Prop}

theorem Always.here {script : Script Op Answer Result} {state : State}
    (always : script.Always act kept state) : kept state := by
  cases script with
  | ret result => exact always
  | fail => exact always
  | call op next => exact always.1

theorem Always.ends {script : Script Op Answer Result} {state after : State} {result : Result}
    (always : script.Always act kept state)
    (ran : script.alone act state = some (after, result)) : kept after := by
  induction script generalizing state with
  | ret answer =>
      cases ran
      exact always
  | fail => cases ran
  | call op next ih => exact ih _ always.2 ran

theorem Always.weaken {weak : State → Prop} {script : Script Op Answer Result} {state : State}
    (always : script.Always act kept state) (implies : ∀ state, kept state → weak state) :
    script.Always act weak state := by
  induction script generalizing state with
  | ret result => exact implies state always
  | fail => exact implies state always
  | call op next ih => exact ⟨implies state always.1, ih _ always.2⟩

theorem always_ofOption {value : Option Result} {state : State} (holds : kept state) :
    (ofOption value : Script Op Answer Result).Always act kept state := by
  cases value with
  | none => exact holds
  | some result => exact holds

theorem Always.bind {first : Script Op Answer Result} {rest : Result → Script Op Answer Final}
    {state : State} (always : first.Always act kept state)
    (goes : ∀ after result, first.alone act state = some (after, result) → kept after →
      (rest result).Always act kept after) :
    (first >>= rest).Always act kept state := by
  induction first generalizing state with
  | ret result => exact goes state result rfl always
  | fail => exact always
  | call op next ih => exact ⟨always.1, ih _ always.2 goes⟩

theorem always_foldlM {Item : Type} {body : Result → Item → Script Op Answer Result}
    {items : List Item} {result : Result} {state : State} (holds : kept state)
    (turns : ∀ item ∈ items, ∀ result state, kept state →
      (body result item).Always act kept state) :
    (items.foldlM body result).Always act kept state := by
  induction items generalizing result state with
  | nil => exact holds
  | cons item rest ih =>
      rw [List.foldlM_cons]
      apply Always.bind (turns item List.mem_cons_self result state holds)
      intro after next _ran keeps
      exact ih keeps (fun other member => turns other (List.mem_cons_of_mem item member))

/-! ### What a reader finds -/

/-- On its own from `origin` the script calls only operations that change nothing, and
goes on alike from what it is answered in any state in which the predicate holds. -/
def Steady (act : State → Op → State × Answer) (kept : State → Prop) (origin : State) :
    Script Op Answer Result → Prop
  | .ret _ => True
  | .fail => True
  | .call op next =>
      (∀ state, kept state →
        (act state op).1 = state ∧ next (act state op).2 = next (act origin op).2) ∧
      (next (act origin op).2).Steady act kept origin

variable {origin : State}

theorem Steady.bind {first : Script Op Answer Result} {rest : Result → Script Op Answer Final}
    (own : kept origin) (steady : first.Steady act kept origin)
    (goes : ∀ result, first.alone act origin = some (origin, result) →
      (rest result).Steady act kept origin) :
    (first >>= rest).Steady act kept origin := by
  induction first with
  | ret result => exact goes result rfl
  | fail => trivial
  | call op next ih =>
      refine ⟨?_, ih _ steady.2 fun result ran => goes result ?_⟩
      · intro state holds
        obtain ⟨same, alike⟩ := steady.1 state holds
        exact ⟨same, congrArg (fun script => script >>= rest) alike⟩
      · unfold alone
        rw [(steady.1 origin own).1]
        exact ran

theorem steady_foldlM {Item : Type} {body : Result → Item → Script Op Answer Result}
    {items : List Item} {result : Result} (own : kept origin)
    (turns : ∀ item ∈ items, ∀ result, (body result item).Steady act kept origin) :
    (items.foldlM body result).Steady act kept origin := by
  induction items generalizing result with
  | nil => trivial
  | cons item rest ih =>
      rw [List.foldlM_cons]
      apply Steady.bind own (turns item List.mem_cons_self result)
      intro next _ran
      exact ih (fun other member => turns other (List.mem_cons_of_mem item member))

theorem alone_foldlM_reading {Item : Type} {body : Result → Item → Script Op Answer Result}
    {turn : Result → Item → Option Result} {state : State}
    (reads : ∀ result item, (body result item).alone act state =
      (turn result item).map (fun result => (state, result)))
    (items : List Item) (result : Result) :
    (items.foldlM body result).alone act state =
      (items.foldlM turn result).map (fun result => (state, result)) := by
  induction items generalizing result with
  | nil => rfl
  | cons item rest ih =>
      rw [List.foldlM_cons, List.foldlM_cons, alone_bind, reads]
      cases turn result item with
      | none => rfl
      | some next => exact ih next

end Script

/-! ### Side by side -/

variable {Thread : Type} {kept : State → Prop} {origin : State}
  {ends : Thread → Option (State × Result)} {s : Pool Thread State Op Answer Result}
  {writer : Thread}

structure Pool.OneWriter (act : State → Op → State × Answer) (kept : State → Prop)
    (origin : State) (writer : Thread) (ends : Thread → Option (State × Result))
    (s : Pool Thread State Op Answer Result) : Prop where
  own : kept origin
  writes : (s.scripts writer).Always act kept s.state
  written : (s.scripts writer).alone act s.state = ends writer
  reads : ∀ thread, thread ≠ writer → (s.scripts thread).Steady act kept origin
  read : ∀ thread, thread ≠ writer → (s.scripts thread).alone act origin = ends thread

variable [DecidableEq Thread]

theorem Pool.OneWriter.step {thread : Thread} {next : Pool Thread State Op Answer Result}
    (held : s.OneWriter act kept origin writer ends) (taken : s.step act thread = some next) :
    next.OneWriter act kept origin writer ends := by
  obtain ⟨op, rest, here, rfl⟩ := Pool.step_some taken
  by_cases same : thread = writer
  · subst same
    have writes := held.writes
    have written := held.written
    rw [here] at writes written
    refine ⟨held.own, ?_, ?_, ?_, ?_⟩
    · dsimp only
      rw [Function.update_self]
      exact writes.2
    · dsimp only
      rw [Function.update_self]
      exact written
    · intro other different
      dsimp only
      rw [Function.update_of_ne different]
      exact held.reads other different
    · intro other different
      dsimp only
      rw [Function.update_of_ne different]
      exact held.read other different
  · have reads := held.reads thread same
    have read := held.read thread same
    rw [here] at reads read
    obtain ⟨unchanged, alike⟩ := reads.1 s.state held.writes.here
    have later : (rest (act origin op).2).alone act origin = ends thread := by
      have first : (rest (act origin op).2).alone act (act origin op).1 = ends thread := read
      rw [(reads.1 origin held.own).1] at first
      exact first
    refine ⟨held.own, ?_, ?_, ?_, ?_⟩
    · dsimp only
      rw [Function.update_of_ne (Ne.symm same), unchanged]
      exact held.writes
    · dsimp only
      rw [Function.update_of_ne (Ne.symm same), unchanged]
      exact held.written
    · intro other different
      dsimp only
      by_cases mine : other = thread
      · rw [mine, Function.update_self, alike]
        exact reads.2
      · rw [Function.update_of_ne mine]
        exact held.reads other different
    · intro other different
      dsimp only
      by_cases mine : other = thread
      · rw [mine, Function.update_self, alike]
        exact later
      · rw [Function.update_of_ne mine]
        exact held.read other different

/-- In every interleaving the writer does what it does on its own, and every other
thread returns what it returns on its own before the writer has begun. -/
theorem Pool.one_writer {schedule : List Thread} {final : Pool Thread State Op Answer Result}
    (writes : (s.scripts writer).Always act kept s.state)
    (reads : ∀ thread, thread ≠ writer → (s.scripts thread).Steady act kept s.state)
    (ran : run (Pool.step act) s schedule = some final) :
    final.OneWriter act kept s.state writer (fun thread => (s.scripts thread).alone act s.state) :=
  run_invariant (fun _s _thread _next held taken => held.step taken)
    ⟨writes.here, writes, rfl, reads, fun _thread _different => rfl⟩ ran

end CseLab.Interleaving
