import CseLab.Lib.RefCount
import CseLab.Lib.Slots
import CseLab.Lib.Transition
import CseLab.Rpc.PollMgr
import CseLab.Rpc.References

/-! The connections of a client. `get_refconn` replaces `chan_` when it has died, and
every `call1` holds the connection that it sent on; the destructor closes the last. -/

namespace CseLab.Rpc

open Counting RefCount Slots Transition

/-- Where the thread with `chan_m_` is in `get_refconn`: there is no live `chan_`, it
has been given up, it is to be used, or what `*ch` was has been given up. -/
inductive ChanStage where
  | stale
  | connecting
  | swapping
  | taking
deriving DecidableEq

/-- Where a call is: it waits for its reply or for `get_refconn`, it is in `send`, it waits
in `block_remove_fd` of a `send` that has failed, or it has returned. -/
inductive CallStage where
  | waiting
  | sending
  | failing
  | returned
deriving DecidableEq

structure ChanCall where
  ch : Option Conn
  stage : CallStage
deriving DecidableEq

/-- Where `~rpcc` is: not called, in `block_remove_fd` of `closeconn`, behind it, or
over. -/
inductive Destruction where
  | unstarted
  | removing (c : Conn)
  | closed (c : Conn)
  | ended
deriving DecidableEq

/-- A client with its connections; `chan` is none while there is no `chan_` or it has
been given up, and `lock` is the call that has `chan_m_`. -/
structure Refconn where
  refno : Conn → Int
  channo : Conn → Nat
  made : List Conn
  heap : List Conn
  dead : Conn → Bool
  callbacks : Nat → Option Conn
  chan : Option Conn
  lock : Option (Nat × ChanStage)
  calls : List ChanCall
  destruction : Destruction

def Refconn.start : Refconn :=
  { refno := fun _ => 0
    channo := fun _ => 0
    made := []
    heap := []
    dead := fun _ => false
    callbacks := fun _ => none
    chan := none
    lock := none
    calls := []
    destruction := .unstarted }

/-- `lock`, `giveUp`, `connect` or `unconnected`, `swap` and `take` are `get_refconn`;
`destroy`, `removed` and `release` are `~rpcc`. `broken` is a callback that finds its
connection broken. -/
inductive RefconnAction where
  | enter
  | lock (index : Nat)
  | giveUp
  | connect (fd : Nat) (ch : Conn)
  | unconnected
  | swap
  | take
  | sendFails (index : Nat)
  | sendRemoved (index : Nat)
  | sent (index : Nat)
  | leave (index : Nat)
  | broken (fd : Nat)
  | destroy
  | removed
  | release

/-- `decref` of a connection; it is deleted when it is dead and its count comes to zero. -/
def Refconn.decref (s : Refconn) (c : Conn) : Refconn :=
  { s with
    refno := Rpc.decref s.refno c
    heap := survivors s.dead s.refno (Rpc.decref s.refno c) s.heap }

def Refconn.setCall (s : Refconn) (index : Nat) (call : ChanCall) : Refconn :=
  { s with calls := s.calls.set index call }

def Refconn.step (s : Refconn) : RefconnAction → Option Refconn
  | .enter =>
      if s.destruction = .unstarted then
        some { s with calls := s.calls ++ [{ ch := none, stage := .waiting }] }
      else none
  | .lock index =>
      match s.calls[index]? with
      | some call =>
          -- `transmit` is set before the first round and after the connection has died
          if s.lock = none ∧ call.stage = .waiting ∧ call.ch.all s.dead = true then
            some { s with
              lock := some (index, if s.chan.all s.dead = true then .stale else .swapping) }
          else none
      | none => none
  | .giveUp =>
      match s.lock, s.chan with
      | some (index, .stale), none => some { s with lock := some (index, .connecting) }
      | some (index, .stale), some c =>
          some { s.decref c with chan := none, lock := some (index, .connecting) }
      | _, _ => none
  | .connect fd ch =>
      match s.lock with
      | some (index, .connecting) =>
          -- the kernel gives a descriptor that is not open; `add_callback` asserts that it
          -- is below its bound, and that nothing else is registered for it
          if ch ∉ s.made ∧ fd ∉ s.heap.map s.channo ∧ fd < maxPollFds ∧
              s.callbacks fd = none then
            some { s with
              refno := Function.update s.refno ch 1
              channo := Function.update s.channo ch fd
              made := ch :: s.made
              heap := ch :: s.heap
              dead := Function.update s.dead ch false
              callbacks := Function.update s.callbacks fd (some ch)
              chan := some ch
              lock := some (index, .swapping) }
          else none
      | _ => none
  | .unconnected =>
      match s.lock with
      | some (index, .connecting) =>
          -- `ch` stays what it was; if there is one, `send` is tried on it again
          (s.calls[index]?).map fun call =>
            { s.setCall index { call with stage := .sending } with lock := none }
      | _ => none
  | .swap =>
      match s.lock with
      | some (index, .swapping) =>
          (s.calls[index]?).map fun call =>
            match call.ch with
            | none => { s with lock := some (index, .taking) }
            | some c =>
                { (s.decref c).setCall index { call with ch := none } with
                  lock := some (index, .taking) }
      | _ => none
  | .take =>
      match s.lock, s.chan with
      | some (index, .taking), some c =>
          some { s.setCall index { ch := some c, stage := .sending } with
            refno := incref s.refno c
            lock := none }
      | _, _ => none
  | .sendFails index =>
      match s.calls[index]? with
      | some { ch := some c, stage := .sending } =>
          if s.dead c = false then
            some { s.setCall index { ch := some c, stage := .failing } with
              dead := Function.update s.dead c true }
          else none
      | _ => none
  | .sendRemoved index =>
      match s.calls[index]? with
      | some { ch := some c, stage := .failing } =>
          some { s.setCall index { ch := some c, stage := .sending } with
            callbacks := Function.update s.callbacks (s.channo c) none }
      | _ => none
  | .sent index =>
      match s.calls[index]? with
      | some { ch := ch, stage := .sending } =>
          some (s.setCall index { ch := ch, stage := .waiting })
      | _ => none
  | .leave index =>
      match s.calls[index]? with
      | some { ch := ch, stage := .waiting } =>
          if s.lock.all (fun holder => holder.1 ≠ index) = true then
            match ch with
            | none => some (s.setCall index { ch := none, stage := .returned })
            | some c => some ((s.decref c).setCall index { ch := none, stage := .returned })
          else none
      | _ => none
  | .broken fd =>
      match s.callbacks fd with
      | some c =>
          if s.dead c = true then none
          else
            some { s with
              dead := Function.update s.dead c true
              callbacks := Function.update s.callbacks fd none }
      | none => none
  | .destroy =>
      -- no thread is in a call, and none will be
      if s.destruction = .unstarted ∧ s.calls.all (fun call => call.stage = .returned) = true then
        match s.chan with
        | none => some { s with destruction := .ended }
        | some c =>
            if s.dead c = true then some { s with destruction := .closed c }
            else
              some { s with
                dead := Function.update s.dead c true
                destruction := .removing c }
      else none
  | .removed =>
      match s.destruction with
      | .removing c =>
          some { s with
            callbacks := Function.update s.callbacks (s.channo c) none
            destruction := .closed c }
      | _ => none
  | .release =>
      match s.destruction with
      | .closed c => some { s.decref c with chan := none, destruction := .ended }
      | _ => none

/-! ### The references -/

def ChanCall.holds (call : ChanCall) (c : Conn) : Bool := decide (call.ch = some c)

def Refconn.holders (s : Refconn) (c : Conn) : Nat :=
  (if s.chan = some c then 1 else 0) + s.calls.countP fun call => call.holds c

def Refconn.Removing (s : Refconn) (c : Conn) : Prop :=
  { ch := some c, stage := .failing } ∈ s.calls ∨ s.destruction = .removing c

def Refconn.Locked (s : Refconn) : Prop :=
  match s.lock with
  | none => True
  | some (index, stage) =>
      ∃ call, s.calls[index]? = some call ∧ call.stage = .waiting ∧
        match stage with
        | .stale => ∀ c, s.chan = some c → s.dead c = true
        | .connecting => s.chan = none
        | .swapping => True
        | .taking => call.ch = none

def Refconn.Destroyed (s : Refconn) : Prop :=
  match s.destruction with
  | .unstarted => True
  | .removing c | .closed c =>
      s.chan = some c ∧ s.dead c = true ∧ ∀ call ∈ s.calls, call.stage = .returned
  | .ended => s.chan = none ∧ ∀ call ∈ s.calls, call.stage = .returned

structure Refconn.Sound (s : Refconn) : Prop where
  accounts : Accounts s.heap s.made s.refno s.holders
  distinct : Distinct s.channo s.heap
  replaced : ∀ c ∈ s.made, s.chan ≠ some c → s.dead c = true
  callbacks : Filed s.callbacks s.channo fun c => c ∈ s.made ∧ (s.dead c = true → s.Removing c)
  returned : ∀ call ∈ s.calls, call.stage = .returned → call.ch = none
  locked : s.Locked
  destroyed : s.Destroyed

theorem Refconn.Sound.start : Refconn.start.Sound := by
  refine ⟨.start, ?_, ?_, ?_, ?_, trivial, trivial⟩
  · exact fun c live => absurd live List.not_mem_nil
  · exact fun c made => absurd made List.not_mem_nil
  · intro fd c registered
    cases registered
  · exact fun call member => absurd member List.not_mem_nil

section Sound

variable {s next : Refconn} {c : Conn} {index : Nat} {call old new : ChanCall}

theorem Refconn.holders_pos (s : Refconn) (c : Conn) :
    0 < s.holders c ↔ s.chan = some c ∨ ∃ call ∈ s.calls, call.ch = some c := by
  have calls : 0 < s.calls.countP (fun call => call.holds c) ↔ ∃ call ∈ s.calls, call.ch = some c := by
    rw [List.countP_pos_iff]
    simp only [ChanCall.holds, decide_eq_true_eq]
  unfold Refconn.holders
  rw [← calls]
  split
  · rename_i here
    exact ⟨fun _held => .inl here, fun _held => by omega⟩
  · rename_i elsewhere
    simp only [elsewhere, false_or, Nat.zero_add]

theorem Refconn.holders_setCall (here : s.calls[index]? = some old) (new : ChanCall) (c : Conn) :
    (s.setCall index new).holders c + (if old.ch = some c then 1 else 0) =
      s.holders c + if new.ch = some c then 1 else 0 := by
  have slots := @countP_set_add _ (fun call => ChanCall.holds call c) _ _ _ new here
  simp only [ChanCall.holds, decide_eq_true_eq] at slots
  unfold Refconn.holders Refconn.setCall
  simp only [ChanCall.holds]
  omega

theorem Refconn.holders_chan (latest : s.chan = some c) (unset : next.chan = none)
    (same : next.calls = s.calls) (d : Conn) :
    s.holders d = next.holders d + if c = d then 1 else 0 := by
  unfold Refconn.holders
  rw [latest, unset, same]
  simp only [Option.some.injEq, reduceCtorEq, if_false]
  omega

theorem Refconn.Sound.held_live (sound : s.Sound)
    (held : s.chan = some c ∨ ∃ call ∈ s.calls, call.ch = some c) : c ∈ s.heap :=
  (sound.accounts.live_iff c).mpr ((s.holders_pos c).mpr held)

theorem Refconn.Sound.registered_live (sound : s.Sound) :
    Filed s.callbacks s.channo (· ∈ s.heap) := by
  refine sound.callbacks.mono fun c registered => ?_
  obtain ⟨made, removing⟩ := registered
  by_cases latest : s.chan = some c
  · exact sound.held_live (.inl latest)
  · rcases removing (sound.replaced c made latest) with waits | closing
    · exact sound.held_live (.inr ⟨_, waits, rfl⟩)
    · have destroyed := sound.destroyed
      unfold Refconn.Destroyed at destroyed
      rw [closing] at destroyed
      exact absurd destroyed.1 latest

theorem Refconn.Sound.locked_at (sound : s.Sound) {lock : Option (Nat × ChanStage)}
    (here : s.lock = lock) : Refconn.Locked { s with lock := lock } := by
  subst here
  exact sound.locked

theorem Refconn.destroyed_unstarted (here : s.destruction = .unstarted) : s.Destroyed := by
  unfold Refconn.Destroyed
  rw [here]
  trivial

theorem Refconn.Sound.unstarted (sound : s.Sound) (here : s.calls[index]? = some call)
    (inside : call.stage ≠ .returned) : s.destruction = .unstarted := by
  have member := List.mem_of_getElem? here
  have destroyed := sound.destroyed
  unfold Refconn.Destroyed at destroyed
  split at destroyed
  · assumption
  · exact absurd (destroyed.2.2 call member) inside
  · exact absurd (destroyed.2.2 call member) inside
  · exact absurd (destroyed.2 call member) inside

theorem Refconn.Sound.enter (sound : s.Sound) (taken : s.step .enter = some next) :
    next.Sound := by
  simp only [Refconn.step] at taken
  split at taken
  · rename_i unstarted
    cases taken
    refine ⟨sound.accounts.kept fun c => ?_, sound.distinct, sound.replaced, ?_, ?_, ?_,
      Refconn.destroyed_unstarted unstarted⟩
    · unfold Refconn.holders
      rw [List.countP_append]
      rfl
    · refine sound.callbacks.mono fun c registered => registered.imp_right fun removing dead => ?_
      exact (removing dead).imp_left (List.mem_append_left _)
    · intro call member ended
      rcases List.mem_append.mp member with before | last
      · exact sound.returned call before ended
      · rw [List.mem_singleton.mp last]
    · have locked := sound.locked
      unfold Refconn.Locked at locked ⊢
      split
      · trivial
      · rename_i holder
        rw [holder] at locked
        obtain ⟨call, here, rest⟩ := locked
        exact ⟨call, (List.getElem?_append_left (List.getElem?_eq_some_iff.mp here).1).trans here,
          rest⟩
  · cases taken

theorem Refconn.Sound.lock (sound : s.Sound) (taken : s.step (.lock index) = some next) :
    next.Sound := by
  simp only [Refconn.step] at taken
  split at taken
  · rename_i call here
    split at taken
    · rename_i guard
      cases taken
      refine ⟨sound.accounts, sound.distinct, sound.replaced, sound.callbacks, sound.returned,
        ?_, sound.destroyed⟩
      refine ⟨call, here, guard.2.1, ?_⟩
      by_cases stale : s.chan.all s.dead = true
      · rw [if_pos stale]
        intro c latest
        rw [latest] at stale
        exact stale
      · rw [if_neg stale]
        trivial
    · cases taken
  · cases taken

/-! ### A call that changes its place -/

/-- The call with `chan_m_` waits for nothing but the lock. -/
theorem Refconn.Locked.apart (locked : s.Locked) (here : s.calls[index]? = some old)
    (outside : old.stage ≠ .waiting) (stage : ChanStage) : s.lock ≠ some (index, stage) := by
  intro holder
  unfold Refconn.Locked at locked
  rw [holder] at locked
  obtain ⟨call, there, waiting, -⟩ := locked
  cases Option.some.inj (here.symm.trans there)
  exact outside waiting

theorem Refconn.Locked.setCall (locked : s.Locked)
    (apart : ∀ stage, s.lock ≠ some (index, stage)) : (s.setCall index new).Locked := by
  unfold Refconn.Locked at locked ⊢
  split
  · trivial
  · rename_i other stage holder
    have holding : s.lock = some (other, stage) := holder
    rw [holding] at locked
    obtain ⟨call, there, rest⟩ := locked
    refine ⟨call, (List.getElem?_set_ne ?_).trans there, rest⟩
    rintro rfl
    exact apart stage holding

theorem Refconn.Locked.dies (locked : s.Locked) (d : Conn) :
    Refconn.Locked { s with dead := Function.update s.dead d true } := by
  unfold Refconn.Locked at locked ⊢
  split
  · trivial
  · rename_i index stage holder
    have holding : s.lock = some (index, stage) := holder
    rw [holding] at locked
    obtain ⟨call, here, waiting, rest⟩ := locked
    refine ⟨call, here, waiting, ?_⟩
    cases stage with
    | stale => exact fun c latest => still_dead d (rest c latest)
    | connecting => exact rest
    | swapping => trivial
    | taking => exact rest

theorem Refconn.Removing.setCall (removing : s.Removing c) (here : s.calls[index]? = some old)
    (other : old ≠ { ch := some c, stage := .failing }) : (s.setCall index new).Removing c :=
  removing.imp_left fun waits => (eq_or_mem_set here waits).resolve_left (Ne.symm other)

theorem Refconn.Sound.returned_setCall (sound : s.Sound)
    (stays : new.stage = .returned → new.ch = none) :
    ∀ call ∈ (s.setCall index new).calls, call.stage = .returned → call.ch = none := by
  intro call member
  rcases List.mem_or_eq_of_mem_set member with before | rfl
  · exact sound.returned call before
  · exact stays

theorem Refconn.Sound.accounts_setCall (sound : s.Sound) (here : s.calls[index]? = some old)
    (kept : new.ch = old.ch) :
    Accounts s.heap s.made s.refno (s.setCall index new).holders := by
  refine sound.accounts.kept fun c => ?_
  have slots := Refconn.holders_setCall here new c
  rw [kept] at slots
  omega

theorem Refconn.Sound.unconnected (sound : s.Sound) (taken : s.step .unconnected = some next) :
    next.Sound := by
  simp only [Refconn.step] at taken
  split at taken
  · rename_i index holder
    obtain ⟨call, here, rfl⟩ := Option.map_eq_some_iff.mp taken
    obtain ⟨holding, there, waiting, -⟩ := sound.locked_at holder
    cases Option.some.inj (here.symm.trans there)
    refine ⟨sound.accounts_setCall here rfl, sound.distinct, sound.replaced, ?_,
      sound.returned_setCall nofun, trivial, ?_⟩
    · refine sound.callbacks.mono fun c registered => registered.imp_right fun removing dead => ?_
      refine (removing dead).setCall here ?_
      rintro rfl
      cases waiting
    · refine Refconn.destroyed_unstarted (sound.unstarted here ?_)
      rw [waiting]
      exact nofun
  · cases taken

theorem Refconn.Sound.sent (sound : s.Sound) (taken : s.step (.sent index) = some next) :
    next.Sound := by
  simp only [Refconn.step] at taken
  split at taken
  · rename_i ch here
    cases taken
    refine ⟨sound.accounts_setCall here rfl, sound.distinct, sound.replaced, ?_,
      sound.returned_setCall nofun, sound.locked.setCall (sound.locked.apart here nofun),
      Refconn.destroyed_unstarted (sound.unstarted here nofun)⟩
    exact sound.callbacks.mono fun c registered => registered.imp_right fun removing dead =>
      (removing dead).setCall here nofun
  · cases taken

theorem Refconn.Sound.sendFails (sound : s.Sound)
    (taken : s.step (.sendFails index) = some next) : next.Sound := by
  simp only [Refconn.step] at taken
  split at taken
  · rename_i c here
    split at taken
    · cases taken
      refine ⟨sound.accounts_setCall here rfl, sound.distinct, ?_, ?_,
        sound.returned_setCall nofun, (sound.locked.setCall (sound.locked.apart here nofun)).dies c,
        Refconn.destroyed_unstarted (sound.unstarted here nofun)⟩
      · exact fun d made replaced => still_dead c (sound.replaced d made replaced)
      · refine sound.callbacks.mono fun d registered =>
          registered.imp_right fun removing dead => ?_
        by_cases same : d = c
        · rw [same]
          exact .inl (mem_set_self here)
        · refine Refconn.Removing.setCall (removing ?_) here nofun
          exact (Function.update_of_ne same _ _).symm.trans dead
    · cases taken
  · cases taken

theorem Refconn.Sound.sendRemoved (sound : s.Sound)
    (taken : s.step (.sendRemoved index) = some next) : next.Sound := by
  simp only [Refconn.step] at taken
  split at taken
  · rename_i c here
    cases taken
    refine ⟨sound.accounts_setCall here rfl, sound.distinct, sound.replaced, ?_,
      sound.returned_setCall nofun, sound.locked.setCall (sound.locked.apart here nofun),
      Refconn.destroyed_unstarted (sound.unstarted here nofun)⟩
    refine sound.callbacks.clear (s.channo c) fun d other registered =>
      registered.imp_right fun removing dead => (removing dead).setCall here ?_
    rintro same
    cases same
    exact other rfl
  · cases taken

/-! ### References taken and given up -/

theorem Refconn.Sound.made_held (sound : s.Sound)
    (held : s.chan = some c ∨ ∃ call ∈ s.calls, call.ch = some c) : c ∈ s.made :=
  sound.accounts.made c ((s.holders_pos c).mpr held)

theorem Refconn.Sound.giveUp (sound : s.Sound) (taken : s.step .giveUp = some next) :
    next.Sound := by
  simp only [Refconn.step] at taken
  split at taken
  · rename_i index holder unset
    cases taken
    obtain ⟨call, here, waiting, -⟩ := sound.locked_at holder
    exact ⟨sound.accounts, sound.distinct, sound.replaced, sound.callbacks, sound.returned,
      ⟨call, here, waiting, unset⟩, sound.destroyed⟩
  · rename_i index c holder latest
    cases taken
    obtain ⟨call, here, waiting, stale⟩ := sound.locked_at holder
    have dead : s.dead c = true := stale c latest
    refine ⟨sound.accounts.release (fun d => ?_) (.inl dead),
      sound.distinct.fewer fun d => mem_of_survivors, ?_, sound.callbacks, sound.returned,
      ⟨call, here, waiting, rfl⟩, ?_⟩
    · refine Refconn.holders_chan latest ?_ ?_ d
      · rfl
      · rfl
    · intro d made _none
      by_cases same : d = c
      · exact same ▸ dead
      · refine sound.replaced d made fun there => same ?_
        exact Option.some.inj (there.symm.trans latest)
    · refine Refconn.destroyed_unstarted (sound.unstarted here ?_)
      rw [waiting]
      exact nofun
  · cases taken

theorem Refconn.Sound.connect (sound : s.Sound) {fd : Nat} {ch : Conn}
    (taken : s.step (.connect fd ch) = some next) : next.Sound := by
  simp only [Refconn.step] at taken
  split at taken
  · rename_i index holder
    split at taken
    · rename_i guard
      cases taken
      obtain ⟨fresh, closed, -⟩ := guard
      obtain ⟨call, here, waiting, connecting⟩ := sound.locked_at holder
      have unset : s.chan = none := connecting
      have old {c : Conn} (made : c ∈ s.made) : c ≠ ch := fun new => fresh (new ▸ made)
      refine ⟨sound.accounts.make fresh fun c => ?_, ?_, ?_, ?_, sound.returned,
        ⟨call, here, waiting, trivial⟩, ?_⟩
      · exact Refconn.holders_chan (s := { s with chan := some ch }) rfl unset rfl c
      · exact sound.distinct.cons (fun live => fresh ((sound.accounts.live ch).mp live).1) closed
      · intro c made replaced
        have new : c ≠ ch := fun same => replaced (congrArg some same.symm)
        have made := (List.mem_cons.mp made).resolve_left new
        refine (Function.update_of_ne new _ _).trans (sound.replaced c made ?_)
        rw [unset]
        exact nofun
      · refine sound.callbacks.file fd (fun c registered => old registered.1) ?_ ?_
        · rintro c ⟨made, removing⟩
          exact ⟨List.mem_cons_of_mem _ made, fun dead =>
            removing ((Function.update_of_ne (old made) _ _).symm.trans dead)⟩
        · refine ⟨List.mem_cons_self, fun dead => ?_⟩
          exact Bool.noConfusion ((Function.update_self ch false s.dead).symm.trans dead)
      · refine Refconn.destroyed_unstarted (sound.unstarted here ?_)
        rw [waiting]
        exact nofun
    · cases taken
  · cases taken

theorem Refconn.Sound.accounts_hangUp (sound : s.Sound) (here : s.calls[index]? = some old)
    (held : old.ch = some c) (gone : new.ch = none) :
    Accounts (s.decref c).heap s.made (s.decref c).refno (s.setCall index new).holders := by
  refine sound.accounts.release (fun d => ?_) ?_
  · have slots := Refconn.holders_setCall here new d
    rw [held, gone] at slots
    simp only [Option.some.injEq, reduceCtorEq, if_false, Nat.add_zero] at slots
    exact slots.symm
  · by_cases latest : s.chan = some c
    · exact .inr (((s.setCall index new).holders_pos c).mpr (.inl latest))
    · have made := sound.made_held (.inr ⟨old, List.mem_of_getElem? here, held⟩)
      exact .inl (sound.replaced c made latest)

theorem Refconn.Sound.swap (sound : s.Sound) (taken : s.step .swap = some next) : next.Sound := by
  simp only [Refconn.step] at taken
  split at taken
  · rename_i index holder
    obtain ⟨call, here, rfl⟩ := Option.map_eq_some_iff.mp taken
    obtain ⟨holding, there, waiting, -⟩ := sound.locked_at holder
    cases Option.some.inj (here.symm.trans there)
    have inside : call.stage ≠ .returned := by
      rw [waiting]
      exact nofun
    split
    · rename_i empty
      exact ⟨sound.accounts, sound.distinct, sound.replaced, sound.callbacks, sound.returned,
        ⟨call, here, waiting, empty⟩, sound.destroyed⟩
    · rename_i c held
      refine ⟨sound.accounts_hangUp here held rfl, sound.distinct.fewer fun d => mem_of_survivors,
        sound.replaced, ?_, sound.returned_setCall fun _ => rfl,
        ⟨_, slot_set_self here, waiting, rfl⟩,
        Refconn.destroyed_unstarted (sound.unstarted here inside)⟩
      refine sound.callbacks.mono fun d registered => registered.imp_right fun removing dead => ?_
      refine (removing dead).setCall here ?_
      rintro rfl
      cases waiting
  · cases taken

theorem Refconn.Sound.take (sound : s.Sound) (taken : s.step .take = some next) : next.Sound := by
  simp only [Refconn.step] at taken
  split at taken
  · rename_i index c holder latest
    cases taken
    obtain ⟨call, here, waiting, taking⟩ := sound.locked_at holder
    have empty : call.ch = none := taking
    have inside : call.stage ≠ .returned := by
      rw [waiting]
      exact nofun
    refine ⟨sound.accounts.acquire ((s.holders_pos c).mpr (.inl latest)) fun d => ?_,
      sound.distinct, sound.replaced, ?_, sound.returned_setCall nofun, trivial,
      Refconn.destroyed_unstarted (sound.unstarted here inside)⟩
    · have slots := Refconn.holders_setCall here { ch := some c, stage := .sending } d
      rw [empty] at slots
      simp only [Option.some.injEq, reduceCtorEq, if_false, Nat.add_zero] at slots
      exact slots
    · refine sound.callbacks.mono fun d registered => registered.imp_right fun removing dead => ?_
      refine (removing dead).setCall here ?_
      rintro rfl
      cases waiting
  · cases taken

theorem Refconn.Sound.leave (sound : s.Sound) (taken : s.step (.leave index) = some next) :
    next.Sound := by
  simp only [Refconn.step] at taken
  split at taken
  · rename_i ch here
    split at taken
    · rename_i free
      have apart (stage : ChanStage) : s.lock ≠ some (index, stage) := by
        intro holder
        rw [holder] at free
        exact of_decide_eq_true free rfl
      have callbacks : Filed s.callbacks s.channo fun c => c ∈ s.made ∧ (s.dead c = true →
          (s.setCall index { ch := none, stage := .returned }).Removing c) :=
        sound.callbacks.mono fun d registered => registered.imp_right fun removing dead =>
          (removing dead).setCall here nofun
      have destroyed := sound.unstarted here nofun
      split at taken
      · cases taken
        exact ⟨sound.accounts_setCall here rfl, sound.distinct, sound.replaced, callbacks,
          sound.returned_setCall fun _ => rfl, sound.locked.setCall apart,
          Refconn.destroyed_unstarted destroyed⟩
      · cases taken
        exact ⟨sound.accounts_hangUp here rfl rfl, sound.distinct.fewer fun d => mem_of_survivors,
          sound.replaced, callbacks, sound.returned_setCall fun _ => rfl,
          sound.locked.setCall apart, Refconn.destroyed_unstarted destroyed⟩
    · cases taken
  · cases taken

/-! ### The poll manager and the destructor -/

theorem Refconn.Destroyed.dies (destroyed : s.Destroyed) (d : Conn) :
    Refconn.Destroyed { s with dead := Function.update s.dead d true } := by
  unfold Refconn.Destroyed at destroyed ⊢
  cases here : s.destruction with
  | unstarted => trivial
  | removing c =>
      rw [here] at destroyed
      exact ⟨destroyed.1, still_dead d destroyed.2.1, destroyed.2.2⟩
  | closed c =>
      rw [here] at destroyed
      exact ⟨destroyed.1, still_dead d destroyed.2.1, destroyed.2.2⟩
  | ended =>
      rw [here] at destroyed
      exact destroyed

theorem Refconn.Sound.broken (sound : s.Sound) {fd : Nat}
    (taken : s.step (.broken fd) = some next) : next.Sound := by
  simp only [Refconn.step] at taken
  split at taken
  · rename_i c here
    split at taken
    · cases taken
    · cases taken
      refine ⟨sound.accounts, sound.distinct, ?_, ?_, sound.returned, sound.locked.dies c,
        sound.destroyed.dies c⟩
      · exact fun d made replaced => still_dead c (sound.replaced d made replaced)
      · refine sound.callbacks.clear fd fun d other registered =>
          registered.imp_right fun removing dead => removing ?_
        have apart : d ≠ c := fun same => other (same ▸ (sound.callbacks fd c here).1)
        exact (Function.update_of_ne apart _ _).symm.trans dead
  · cases taken

theorem Refconn.Sound.destroy (sound : s.Sound) (taken : s.step .destroy = some next) :
    next.Sound := by
  simp only [Refconn.step] at taken
  split at taken
  · rename_i guard
    have returned (call : ChanCall) (member : call ∈ s.calls) : call.stage = .returned :=
      of_decide_eq_true (List.all_eq_true.mp guard.2 call member)
    have callbacks (destruction : Destruction) : Filed s.callbacks s.channo fun c =>
        c ∈ s.made ∧ (s.dead c = true →
          Refconn.Removing { s with destruction := destruction } c) :=
      sound.callbacks.mono fun d registered => registered.imp_right fun removing dead =>
        (removing dead).imp id fun there => Destruction.noConfusion (guard.1.symm.trans there)
    split at taken
    · rename_i unset
      cases taken
      exact ⟨sound.accounts, sound.distinct, sound.replaced, callbacks .ended, sound.returned,
        sound.locked, unset, returned⟩
    · rename_i c latest
      split at taken
      · rename_i dead
        cases taken
        exact ⟨sound.accounts, sound.distinct, sound.replaced, callbacks (.closed c),
          sound.returned, sound.locked, latest, dead, returned⟩
      · cases taken
        refine ⟨sound.accounts, sound.distinct, ?_, ?_, sound.returned, sound.locked.dies c,
          latest, Function.update_self .., returned⟩
        · exact fun d made replaced => still_dead c (sound.replaced d made replaced)
        · refine (callbacks (.removing c)).mono fun d registered =>
            registered.imp_right fun removing dead => ?_
          by_cases same : d = c
          · exact .inr (congrArg Destruction.removing same.symm)
          · exact removing ((Function.update_of_ne same _ _).symm.trans dead)
  · cases taken

theorem Refconn.Sound.removed (sound : s.Sound) (taken : s.step .removed = some next) :
    next.Sound := by
  simp only [Refconn.step] at taken
  split at taken
  · rename_i c here
    cases taken
    have destroyed := sound.destroyed
    unfold Refconn.Destroyed at destroyed
    rw [here] at destroyed
    refine ⟨sound.accounts, sound.distinct, sound.replaced, ?_, sound.returned, sound.locked,
      destroyed⟩
    refine sound.callbacks.clear (s.channo c) fun d other registered =>
      registered.imp_right fun removing dead => (removing dead).imp id fun there => ?_
    exact absurd (congrArg s.channo (Destruction.removing.inj (here.symm.trans there)).symm) other
  · cases taken

theorem Refconn.Sound.release (sound : s.Sound) (taken : s.step .release = some next) :
    next.Sound := by
  simp only [Refconn.step] at taken
  split at taken
  · rename_i c here
    cases taken
    have destroyed := sound.destroyed
    unfold Refconn.Destroyed at destroyed
    rw [here] at destroyed
    obtain ⟨latest, dead, returned⟩ := destroyed
    refine ⟨sound.accounts.release (fun d => ?_) (.inl dead),
      sound.distinct.fewer fun d => mem_of_survivors, ?_, ?_, sound.returned, ?_, rfl, returned⟩
    · refine Refconn.holders_chan latest ?_ ?_ d
      · rfl
      · rfl
    · intro d made _none
      by_cases same : d = c
      · exact same ▸ dead
      · refine sound.replaced d made fun there => same ?_
        exact Option.some.inj (there.symm.trans latest)
    · refine sound.callbacks.mono fun d registered => registered.imp_right fun removing dead => ?_
      exact (removing dead).imp id fun there => Destruction.noConfusion (here.symm.trans there)
    · -- no call is left that could have `chan_m_`
      have locked := sound.locked
      unfold Refconn.Locked at locked ⊢
      split
      · trivial
      · rename_i index stage holder
        have holding : s.lock = some (index, stage) := holder
        rw [holding] at locked
        obtain ⟨call, there, waiting, -⟩ := locked
        have ended := returned call (List.mem_of_getElem? there)
        exact CallStage.noConfusion (waiting.symm.trans ended)
  · cases taken

theorem Refconn.Sound.step (sound : s.Sound) {action : RefconnAction}
    (taken : s.step action = some next) : next.Sound := by
  cases action with
  | enter => exact sound.enter taken
  | lock index => exact sound.lock taken
  | giveUp => exact sound.giveUp taken
  | connect fd ch => exact sound.connect taken
  | unconnected => exact sound.unconnected taken
  | swap => exact sound.swap taken
  | take => exact sound.take taken
  | sendFails index => exact sound.sendFails taken
  | sendRemoved index => exact sound.sendRemoved taken
  | sent index => exact sound.sent taken
  | leave index => exact sound.leave taken
  | broken fd => exact sound.broken taken
  | destroy => exact sound.destroy taken
  | removed => exact sound.removed taken
  | release => exact sound.release taken

end Sound

theorem Refconn.sound_run {actions : List RefconnAction} {s : Refconn}
    (ran : run Refconn.step .start actions = some s) : s.Sound :=
  run_invariant (fun _state _action _next holds taken => holds.step taken) .start ran

/-- The heap has `chan_` and the connections of the calls and nothing else, and the
poll manager calls no other. All but `chan_` are dead. -/
theorem refconn_live {actions : List RefconnAction} {s : Refconn}
    (ran : run Refconn.step .start actions = some s) :
    (∀ c, c ∈ s.heap ↔ s.chan = some c ∨ ∃ call ∈ s.calls, call.ch = some c) ∧
      (∀ fd c, s.callbacks fd = some c → s.channo c = fd ∧ c ∈ s.heap) ∧
      (∀ fd, fd ∉ s.heap.map s.channo → s.callbacks fd = none) ∧
      ∀ c ∈ s.heap, s.chan ≠ some c → s.dead c = true := by
  have sound := Refconn.sound_run ran
  refine ⟨fun c => (sound.accounts.live_iff c).trans (s.holders_pos c), sound.registered_live,
    fun fd => sound.registered_live.free, fun c live => sound.replaced c ?_⟩
  exact ((sound.accounts.live c).mp live).1

private def toServer (id : Nat) : Conn := { owner := 5, id := id, createTime := 0 }

/-- Two calls share a connection, and one of them transmits again on another. -/
private def sharedRun : List RefconnAction :=
  [.enter, .lock 0, .giveUp, .connect 5 (toServer 0), .swap, .take, .sent 0, .enter, .lock 1,
    .swap, .take, .broken 5, .sent 1, .lock 0, .giveUp, .connect 6 (toServer 1), .swap, .take,
    .sent 0, .leave 1]

theorem refconn_live_shared :
    ∃ s, run Refconn.step .start sharedRun = some s ∧
      ¬(s.chan = some (toServer 0) ∨ ∃ call ∈ s.calls, call.ch = some (toServer 0)) ∧
      s.callbacks 5 = none := by
  have ran : (run Refconn.step .start sharedRun).isSome := by decide
  obtain ⟨s, ran⟩ := Option.isSome_iff_exists.mp ran
  have ends : (run Refconn.step .start sharedRun).all (fun s =>
      toServer 0 ∉ s.heap ∧ 5 ∉ s.heap.map s.channo) = true := by decide
  rw [ran] at ends
  obtain ⟨deleted, closed⟩ := of_decide_eq_true ends
  have live := refconn_live ran
  exact ⟨s, ran, fun held => deleted ((live.1 (toServer 0)).mpr held), live.2.2.1 5 closed⟩

/-- The destructor leaves no connection and no callback behind. -/
theorem destructor_frees {actions : List RefconnAction} {s : Refconn}
    (ran : run Refconn.step .start actions = some s) (ended : s.destruction = .ended) :
    s.heap = [] ∧ ∀ fd, s.callbacks fd = none := by
  have sound := Refconn.sound_run ran
  have destroyed := sound.destroyed
  unfold Refconn.Destroyed at destroyed
  rw [ended] at destroyed
  have empty : s.heap = [] := by
    refine List.eq_nil_iff_forall_not_mem.mpr fun c live => ?_
    have held := (s.holders_pos c).mp ((sound.accounts.live_iff c).mp live)
    rcases held with latest | ⟨call, member, held⟩
    · cases destroyed.1.symm.trans latest
    · have gone := sound.returned call member (destroyed.2 call member)
      cases gone.symm.trans held
  refine ⟨empty, fun fd => sound.registered_live.free ?_⟩
  rw [empty]
  exact List.not_mem_nil

theorem destructor_frees_shared :
    ∃ s, run Refconn.step .start (sharedRun ++ [.leave 0, .destroy, .removed, .release]) = some s ∧
      s.made.length = 2 ∧ s.heap = [] ∧ ∀ fd, s.callbacks fd = none := by
  have ran : (run Refconn.step .start
      (sharedRun ++ [.leave 0, .destroy, .removed, .release])).isSome := by decide
  obtain ⟨s, ran⟩ := Option.isSome_iff_exists.mp ran
  have ends : (run Refconn.step .start
      (sharedRun ++ [.leave 0, .destroy, .removed, .release])).all (fun s =>
        s.destruction = .ended ∧ s.made.length = 2) = true := by decide
  rw [ran] at ends
  obtain ⟨ended, made⟩ := of_decide_eq_true ends
  exact ⟨s, ran, made, destructor_frees ran ended⟩

end CseLab.Rpc
