import CseLab.Lib.Loop

/-! Computations that may fail and that leave a list of events behind, what they
did before a failure included. -/

namespace CseLab

structure Logged (Event α : Type*) where
  events : List Event
  result : Option α

namespace Logged

variable {Event α β State Item : Type*}

def ofOption (x : Option α) : Logged Event α := { events := [], result := x }

def tell (event : Event) : Logged Event Unit := { events := [event], result := some () }

def bind (x : Logged Event α) (f : α → Logged Event β) : Logged Event β :=
  match x.result with
  | none => { events := x.events, result := none }
  | some a => { events := x.events ++ (f a).events, result := (f a).result }

instance : Monad (Logged Event) where
  pure a := ofOption (some a)
  bind := bind

def All (good : Event → Prop) (x : Logged Event α) : Prop := ∀ event ∈ x.events, good event

def fold (body : State → Item → Logged Event State) : State → List Item → Logged Event State
  | state, [] => ofOption (some state)
  | state, item :: rest => (body state item).bind (fun next => fold body next rest)

theorem bind_eq {α β : Type} (x : Logged Event α) (f : α → Logged Event β) : x >>= f = x.bind f := rfl

theorem pure_eq (a : α) : (Pure.pure a : Logged Event α) = ofOption (some a) := rfl

@[simp] theorem result_ofOption (x : Option α) : (ofOption x : Logged Event α).result = x := rfl

@[simp] theorem result_tell (event : Event) : (tell event).result = some () := rfl

@[simp] theorem result_bind (x : Logged Event α) (f : α → Logged Event β) :
    (x.bind f).result = x.result.bind (fun a => (f a).result) := by
  unfold bind
  cases x.result <;> rfl

theorem result_fold (body : State → Item → Logged Event State) (state : State)
    (items : List Item) :
    (fold body state items).result =
      items.foldlM (fun state item => (body state item).result) state := by
  induction items generalizing state with
  | nil => rfl
  | cons item rest ih =>
      rw [fold, result_bind, List.foldlM_cons]
      congr 1
      funext next
      exact ih next

variable {good : Event → Prop}

@[simp] theorem all_ofOption (x : Option α) : (ofOption x : Logged Event α).All good :=
  fun _ member => nomatch member

@[simp] theorem all_tell {event : Event} : (tell event).All good ↔ good event :=
  List.forall_mem_singleton

theorem all_bind {x : Logged Event α} {f : α → Logged Event β} :
    (x.bind f).All good ↔ x.All good ∧ ∀ a, x.result = some a → (f a).All good := by
  unfold bind All
  cases found : x.result with
  | none => exact (and_iff_left nofun).symm
  | some a =>
      rw [List.forall_mem_append]
      refine and_congr_right fun _ => ⟨?_, fun every => every a rfl⟩
      rintro every _ same
      cases same
      exact every

theorem all_tell_bind {event : Event} {f : Unit → Logged Event β} :
    ((tell event).bind f).All good ↔ good event ∧ (f ()).All good := by
  rw [all_bind, all_tell]
  exact and_congr_right fun _ => ⟨fun every => every () rfl, fun holds _ _ => holds⟩

theorem all_fold {body : State → Item → Logged Event State} {items : List Item} {state : State}
    (each : ∀ state, ∀ item ∈ items, (body state item).All good) :
    (fold body state items).All good := by
  induction items generalizing state with
  | nil => exact all_ofOption _
  | cons item rest ih =>
      exact all_bind.mpr ⟨each state item List.mem_cons_self,
        fun _ _ => ih (fun later other member => each later other (List.mem_cons_of_mem item member))⟩

theorem all_fold_iff {body : State → Item → Logged Event State} {condition : Item → Prop}
    {items : List Item} {state : State}
    (succeeds : ∀ state, ∀ item ∈ items, ∃ next, (body state item).result = some next)
    (each : ∀ state, ∀ item ∈ items, (body state item).All good ↔ condition item) :
    (fold body state items).All good ↔ ∀ item ∈ items, condition item := by
  induction items generalizing state with
  | nil => exact iff_of_true (all_ofOption _) nofun
  | cons item rest ih =>
      have tail := fun next => @ih next
        (fun later other member => succeeds later other (List.mem_cons_of_mem item member))
        (fun later other member => each later other (List.mem_cons_of_mem item member))
      obtain ⟨next, found⟩ := succeeds state item List.mem_cons_self
      rw [fold, all_bind, each state item List.mem_cons_self, List.forall_mem_cons]
      exact and_congr_right fun _ =>
        ⟨fun every => (tail next).mp (every next found), fun every next _ => (tail next).mpr every⟩

end Logged

end CseLab
