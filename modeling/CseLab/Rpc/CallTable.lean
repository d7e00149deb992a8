import CseLab.Lib.Transition
import CseLab.Rpc.Message

/-! `calls_` and the callers it points to. A caller lives on the stack of the
thread that runs `call1`, so an entry is a pointer that may dangle; a section
that follows one to a frame that is gone has no outcome. `xid_` is a 32-bit
word here and wraps. -/

namespace CseLab.Rpc

open Transition

/-- A `caller`; it is registered between the two sections of `call1` that hold `m_`. -/
structure CallFrame where
  xid : UInt32
  un : List UInt8
  intret : Int
  done : Bool
  registered : Bool
deriving DecidableEq

/-- The part of `got_pdu` that holds `ca->m`. -/
def CallFrame.takeIn (ca : CallFrame) (ret : Int) (body : List UInt8) : CallFrame :=
  if ca.done then ca else { ca with un := body, intret := ret, done := true }

def CallFrame.cancelled (ca : CallFrame) : CallFrame :=
  { ca with done := true, intret := RpcConst.cancelFailure }

/-- `calls_` has the address of a caller for each xid, and `frames` the stack frames of
`call1` by address, no address being used twice. `cancels` are the threads that wait in
`cancel`, `returned` what the calls that have ended returned. -/
structure CallTable where
  xid : UInt32
  bindDone : Bool
  destroyWait : Bool
  calls : List (UInt32 × Nat)
  frames : Nat → Option CallFrame
  started : Nat
  cancels : List Nat
  returned : List (Nat × Int)

def CallTable.start : CallTable :=
  { xid := 1
    bindDone := false
    destroyWait := false
    calls := []
    frames := fun _ => none
    started := 0
    cancels := []
    returned := [] }

def CallTable.enter (s : CallTable) (proc : Nat) : CallTable :=
  let address := s.started
  if (proc ≠ RpcConst.bind ∧ s.bindDone = false) ∨ (proc = RpcConst.bind ∧ s.bindDone = true) then
    { s with started := address + 1, returned := (address, RpcConst.bindFailure) :: s.returned }
  else if s.destroyWait then
    { s with started := address + 1, returned := (address, RpcConst.cancelFailure) :: s.returned }
  else
    let ca := { xid := s.xid, un := [], intret := 0, done := false, registered := true }
    { s with
      xid := s.xid + 1
      calls := s.calls.filter (fun entry => entry.1 ≠ s.xid) ++ [(s.xid, address)]
      frames := Function.update s.frames address (some ca)
      started := address + 1 }

def CallTable.leave (s : CallTable) (address : Nat) : Option CallTable := do
  let ca ← s.frames address
  if ca.registered then
    some { s with
      calls := s.calls.filter (fun entry => entry.1 ≠ ca.xid)
      frames := Function.update s.frames address (some { ca with registered := false }) }
  else none

def CallTable.finish (s : CallTable) (address : Nat) : Option CallTable := do
  let ca ← s.frames address
  if ca.registered then none
  else
    let result := if ca.done then ca.intret else RpcConst.timeoutFailure
    some { s with
      frames := Function.update s.frames address none
      returned := (address, result) :: s.returned }

def CallTable.gotPdu (s : CallTable) (xid : UInt32) (ret : Int) (body : List UInt8) :
    Option CallTable :=
  match s.calls.find? (fun entry => entry.1 = xid) with
  | none => some s
  | some entry => do
      let ca ← s.frames entry.2
      some { s with frames := Function.update s.frames entry.2 (some (ca.takeIn ret body)) }

def markCancelled (frames : Nat → Option CallFrame) (calls : List (UInt32 × Nat)) :
    Option (Nat → Option CallFrame) :=
  calls.foldlM
    (fun frames entry => do
      let ca ← frames entry.2
      some (Function.update frames entry.2 (some ca.cancelled)))
    frames

/-- `while (calls_.size() > 0)`, up to the next wait or the return. -/
def CallTable.drain (s : CallTable) (thread : Nat) : CallTable :=
  if s.calls = [] then s
  else { s with destroyWait := true, cancels := thread :: s.cancels }

def CallTable.cancel (s : CallTable) (thread : Nat) : Option CallTable := do
  let frames ← markCancelled s.frames s.calls
  some ({ s with frames := frames }.drain thread)

def CallTable.wake (s : CallTable) (thread : Nat) : CallTable :=
  { s with cancels := s.cancels.erase thread }.drain thread

inductive CallAction where
  | enter (proc : Nat)
  | leave (address : Nat)
  | finish (address : Nat)
  | gotPdu (xid : UInt32) (ret : Int) (body : List UInt8)
  | cancel (thread : Nat)
  | wake (thread : Nat)
  | bound

def CallTable.step (s : CallTable) : CallAction → Option CallTable
  | .enter proc => some (s.enter proc)
  | .leave address => s.leave address
  | .finish address => s.finish address
  | .gotPdu xid ret body => s.gotPdu xid ret body
  | .cancel thread => if thread ∈ s.cancels then none else s.cancel thread
  | .wake thread => if thread ∈ s.cancels then some (s.wake thread) else none
  | .bound => some { s with bindDone := true }

def CallTable.Registered (s : CallTable) (address : Nat) : Prop :=
  ∃ ca, s.frames address = some ca ∧ ca.registered = true

/-! ### No entry dangles -/

/-- Every entry points to the caller of a call that is registered under its xid. -/
structure CallTable.Sound (s : CallTable) : Prop where
  keys : (s.calls.map Prod.fst).Nodup
  alive : ∀ entry ∈ s.calls, ∃ ca, s.frames entry.2 = some ca ∧ ca.xid = entry.1 ∧
    ca.registered = true
  unused : ∀ address, s.started ≤ address → s.frames address = none
  waits : s.cancels ≠ [] → s.destroyWait = true

theorem CallTable.Sound.start : CallTable.Sound .start :=
  ⟨List.nodup_nil, fun _ member => absurd member List.not_mem_nil, fun _ _ => rfl,
    fun some => absurd rfl some⟩

theorem CallTable.enter_cases (s : CallTable) (proc : Nat) :
    (∃ value, s.enter proc =
        { s with started := s.started + 1, returned := (s.started, value) :: s.returned }) ∨
      s.destroyWait = false ∧ s.enter proc =
        { s with
          xid := s.xid + 1
          calls := s.calls.filter (fun entry => entry.1 ≠ s.xid) ++ [(s.xid, s.started)]
          frames := Function.update s.frames s.started (some
            { xid := s.xid, un := [], intret := 0, done := false, registered := true })
          started := s.started + 1 } := by
  unfold CallTable.enter
  split
  · exact Or.inl ⟨_, rfl⟩
  · split
    · exact Or.inl ⟨_, rfl⟩
    · rename_i notWaiting
      exact Or.inr ⟨Bool.eq_false_of_not_eq_true notWaiting, rfl⟩

theorem CallTable.leave_some {s next : CallTable} {address : Nat}
    (left : s.leave address = some next) :
    ∃ ca, s.frames address = some ca ∧ ca.registered = true ∧
      next = { s with
        calls := s.calls.filter (fun entry => entry.1 ≠ ca.xid)
        frames := Function.update s.frames address (some { ca with registered := false }) } := by
  obtain ⟨ca, here, rest⟩ := Option.bind_eq_some_iff.mp left
  split at rest
  · rename_i registered
    exact ⟨ca, here, registered, (Option.some.inj rest).symm⟩
  · cases rest

theorem CallTable.finish_some {s next : CallTable} {address : Nat}
    (finished : s.finish address = some next) :
    ∃ ca, s.frames address = some ca ∧ ca.registered = false ∧
      next = { s with
        frames := Function.update s.frames address none
        returned :=
          (address, if ca.done then ca.intret else RpcConst.timeoutFailure) :: s.returned } := by
  obtain ⟨ca, here, rest⟩ := Option.bind_eq_some_iff.mp finished
  split at rest
  · cases rest
  · rename_i erased
    exact ⟨ca, here, Bool.eq_false_of_not_eq_true erased, (Option.some.inj rest).symm⟩

theorem CallFrame.takeIn_kept (ca : CallFrame) (ret : Int) (body : List UInt8) :
    (ca.takeIn ret body).xid = ca.xid ∧ (ca.takeIn ret body).registered = ca.registered := by
  unfold CallFrame.takeIn
  split <;> exact ⟨rfl, rfl⟩

theorem CallTable.Sound.gotPdu_eq {s : CallTable} (sound : s.Sound) (xid : UInt32) (ret : Int)
    (body : List UInt8) :
    ∃ frames, s.gotPdu xid ret body = some { s with frames := frames } ∧
      ∀ address, frames address = s.frames address ∨
        ∃ ca, s.frames address = some ca ∧ frames address = some (ca.takeIn ret body) := by
  unfold CallTable.gotPdu
  cases found : s.calls.find? (fun entry => entry.1 = xid) with
  | none => exact ⟨s.frames, rfl, fun _ => Or.inl rfl⟩
  | some entry =>
      obtain ⟨ca, here, -⟩ := sound.alive entry (List.mem_of_find?_eq_some found)
      simp only [here]
      refine ⟨_, rfl, ?_⟩
      intro address
      by_cases same : address = entry.2
      · rw [same, Function.update_self]
        exact Or.inr ⟨ca, here, rfl⟩
      · rw [Function.update_of_ne same]
        exact Or.inl rfl

theorem markCancelled_eq {calls : List (UInt32 × Nat)} {frames : Nat → Option CallFrame}
    (alive : ∀ entry ∈ calls, (frames entry.2).isSome) :
    ∃ marked, markCancelled frames calls = some marked ∧
      ∀ address, marked address = frames address ∨
        ∃ ca, frames address = some ca ∧ marked address = some ca.cancelled := by
  induction calls generalizing frames with
  | nil => exact ⟨frames, rfl, fun _ => Or.inl rfl⟩
  | cons entry rest ih =>
      obtain ⟨ca, here⟩ := Option.isSome_iff_exists.mp (alive entry List.mem_cons_self)
      obtain ⟨marked, ran, every⟩ :=
        @ih (Function.update frames entry.2 (some ca.cancelled)) (by
          intro other member
          by_cases same : other.2 = entry.2
          · rw [same, Function.update_self]
            rfl
          · rw [Function.update_of_ne same]
            exact alive other (List.mem_cons_of_mem _ member))
      refine ⟨marked, ?_, ?_⟩
      · unfold markCancelled
        rw [List.foldlM_cons, here]
        exact ran
      · intro address
        by_cases same : address = entry.2
        · right
          refine ⟨ca, same ▸ here, ?_⟩
          rcases every address with kept | ⟨again, found, twice⟩
          · rw [kept, same, Function.update_self]
          · rw [same, Function.update_self] at found
            rw [twice, ← Option.some.inj found]
            rfl
        · have := every address
          rwa [Function.update_of_ne same] at this

theorem CallTable.drain_kept (s : CallTable) (thread : Nat) :
    (s.drain thread).calls = s.calls ∧ (s.drain thread).frames = s.frames ∧
      (s.drain thread).started = s.started ∧ (s.drain thread).xid = s.xid := by
  unfold CallTable.drain
  split <;> exact ⟨rfl, rfl, rfl, rfl⟩

theorem CallTable.drain_waits {s : CallTable} (thread : Nat)
    (waits : s.cancels ≠ [] → s.destroyWait = true) :
    (s.drain thread).cancels ≠ [] → (s.drain thread).destroyWait = true := by
  unfold CallTable.drain
  split
  · exact waits
  · exact fun _ => rfl

theorem CallTable.Sound.cancel_eq {s : CallTable} (sound : s.Sound) (thread : Nat) :
    ∃ frames, s.cancel thread = some ({ s with frames := frames }.drain thread) ∧
      ∀ address, frames address = s.frames address ∨
        ∃ ca, s.frames address = some ca ∧ frames address = some ca.cancelled := by
  have alive : ∀ entry ∈ s.calls, (s.frames entry.2).isSome := by
    intro entry member
    obtain ⟨ca, here, -⟩ := sound.alive entry member
    rw [here]
    rfl
  obtain ⟨frames, ran, every⟩ := markCancelled_eq alive
  refine ⟨frames, ?_, every⟩
  unfold CallTable.cancel
  rw [ran]
  rfl

theorem CallTable.Sound.reframe {s : CallTable} (sound : s.Sound) {frames : Nat → Option CallFrame}
    (kept : ∀ address, frames address = s.frames address ∨
      ∃ ca next, s.frames address = some ca ∧ frames address = some next ∧ next.xid = ca.xid ∧
        next.registered = ca.registered) :
    CallTable.Sound { s with frames := frames } := by
  refine ⟨sound.keys, ?_, ?_, sound.waits⟩
  · intro entry member
    obtain ⟨ca, here, sameXid, registered⟩ := sound.alive entry member
    rcases kept entry.2 with same | ⟨old, next, before, after, xid, phase⟩
    · exact ⟨ca, same.trans here, sameXid, registered⟩
    · cases here.symm.trans before
      exact ⟨next, after, xid.trans sameXid, phase.trans registered⟩
  · intro address later
    rcases kept address with same | ⟨old, next, before, -⟩
    · exact same.trans (sound.unused address later)
    · rw [sound.unused address later] at before
      cases before

theorem CallTable.Sound.drain {s : CallTable} (sound : s.Sound) (thread : Nat) :
    (s.drain thread).Sound := by
  have waits := CallTable.drain_waits thread sound.waits
  obtain ⟨calls, frames, started, -⟩ := s.drain_kept thread
  refine ⟨?_, ?_, ?_, waits⟩
  · rw [calls]
    exact sound.keys
  · rw [calls, frames]
    exact sound.alive
  · rw [started, frames]
    exact sound.unused

theorem CallTable.Sound.enter {s : CallTable} (sound : s.Sound) (proc : Nat) :
    (s.enter proc).Sound := by
  rcases s.enter_cases proc with ⟨value, refused⟩ | ⟨-, registers⟩
  · rw [refused]
    exact ⟨sound.keys, sound.alive,
      fun address later => sound.unused address (Nat.le_of_succ_le later), sound.waits⟩
  · rw [registers]
    refine ⟨?_, ?_, ?_, sound.waits⟩
    · simp only [List.map_append, List.map_cons, List.map_nil, List.nodup_append]
      refine ⟨?_, List.nodup_singleton _, ?_⟩
      · exact sound.keys.sublist (List.filter_sublist.map Prod.fst)
      · intro key member other last same
        obtain ⟨entry, inside, rfl⟩ := List.mem_map.mp member
        rw [List.mem_singleton] at last
        have different := (List.mem_filter.mp inside).2
        simp only [ne_eq, decide_eq_true_eq] at different
        exact different (same.trans last)
    · intro entry member
      rcases List.mem_append.mp member with old | new
      · obtain ⟨ca, here, rest⟩ := sound.alive entry (List.mem_filter.mp old).1
        have old : entry.2 ≠ s.started := by
          intro same
          rw [sound.unused entry.2 (Nat.le_of_eq same.symm)] at here
          cases here
        exact ⟨ca, (Function.update_of_ne old _ _).trans here, rest⟩
      · rw [List.mem_singleton.mp new]
        exact ⟨_, Function.update_self _ _ _, rfl, rfl⟩
    · intro address later
      exact (Function.update_of_ne (Nat.ne_of_gt later) _ _).trans
        (sound.unused address (Nat.le_of_succ_le later))

theorem CallTable.Sound.leave {s next : CallTable} (sound : s.Sound) {address : Nat}
    (left : s.leave address = some next) : next.Sound := by
  obtain ⟨ca, here, -, rfl⟩ := CallTable.leave_some left
  refine ⟨?_, ?_, ?_, sound.waits⟩
  · exact sound.keys.sublist (List.filter_sublist.map Prod.fst)
  · intro entry member
    obtain ⟨inside, different⟩ := List.mem_filter.mp member
    simp only [ne_eq, decide_eq_true_eq] at different
    obtain ⟨other, found, sameXid, registered⟩ := sound.alive entry inside
    have apart : entry.2 ≠ address := by
      intro same
      rw [same, here] at found
      exact different (sameXid.symm.trans (congrArg CallFrame.xid (Option.some.inj found)).symm)
    exact ⟨other, (Function.update_of_ne apart _ _).trans found, sameXid, registered⟩
  · intro other later
    have absent := sound.unused other later
    have apart : other ≠ address := by
      rintro rfl
      rw [here] at absent
      cases absent
    exact (Function.update_of_ne apart _ _).trans absent

theorem CallTable.Sound.finish {s next : CallTable} (sound : s.Sound) {address : Nat}
    (finished : s.finish address = some next) : next.Sound := by
  obtain ⟨ca, here, erased, rfl⟩ := CallTable.finish_some finished
  refine ⟨sound.keys, ?_, ?_, sound.waits⟩
  · intro entry member
    obtain ⟨other, found, sameXid, registered⟩ := sound.alive entry member
    have apart : entry.2 ≠ address := by
      intro same
      rw [same, here] at found
      rw [Option.some.inj found, registered] at erased
      cases erased
    exact ⟨other, (Function.update_of_ne apart _ _).trans found, sameXid, registered⟩
  · intro other later
    by_cases same : other = address
    · rw [same]
      exact Function.update_self _ _ _
    · exact (Function.update_of_ne same _ _).trans (sound.unused other later)

theorem CallTable.Sound.gotPdu {s next : CallTable} (sound : s.Sound) {xid : UInt32} {ret : Int}
    {body : List UInt8} (got : s.gotPdu xid ret body = some next) : next.Sound := by
  obtain ⟨frames, ran, kept⟩ := sound.gotPdu_eq xid ret body
  cases ran.symm.trans got
  apply sound.reframe
  intro address
  rcases kept address with same | ⟨ca, before, after⟩
  · exact Or.inl same
  · exact Or.inr ⟨ca, _, before, after, ca.takeIn_kept ret body⟩

theorem CallTable.Sound.cancel {s next : CallTable} (sound : s.Sound) {thread : Nat}
    (cancelled : s.cancel thread = some next) : next.Sound := by
  obtain ⟨frames, ran, kept⟩ := sound.cancel_eq thread
  cases ran.symm.trans cancelled
  apply CallTable.Sound.drain
  apply sound.reframe
  intro address
  rcases kept address with same | ⟨ca, before, after⟩
  · exact Or.inl same
  · exact Or.inr ⟨ca, _, before, after, rfl, rfl⟩

theorem CallTable.Sound.wake {s : CallTable} (sound : s.Sound) (thread : Nat) :
    (s.wake thread).Sound := by
  apply CallTable.Sound.drain
  refine ⟨sound.keys, sound.alive, sound.unused, ?_⟩
  intro others
  apply sound.waits
  rintro none
  rw [none] at others
  exact others rfl

theorem CallTable.Sound.step {s next : CallTable} (sound : s.Sound) {action : CallAction}
    (taken : s.step action = some next) : next.Sound := by
  cases action with
  | enter proc =>
      cases taken
      exact sound.enter proc
  | leave address => exact sound.leave taken
  | finish address => exact sound.finish taken
  | gotPdu xid ret body => exact sound.gotPdu taken
  | cancel thread =>
      dsimp only [CallTable.step] at taken
      split at taken
      · cases taken
      · exact sound.cancel taken
  | wake thread =>
      dsimp only [CallTable.step] at taken
      split at taken
      · cases taken
        exact sound.wake thread
      · cases taken
  | bound =>
      cases taken
      exact ⟨sound.keys, sound.alive, sound.unused, sound.waits⟩

theorem CallTable.Sound.afterRun {s final : CallTable} (sound : s.Sound) {actions : List CallAction}
    (ran : run CallTable.step s actions = some final) : final.Sound :=
  run_invariant (fun _state _action _next holds taken => holds.step taken) sound ran

/-! ### What a step leaves of the entries and of the outcomes -/

/-- A call that registers nothing, or does so under an xid without an entry. -/
def NoClash (s : CallTable) : CallAction → Prop
  | .enter proc => (s.enter proc).calls = s.calls ∨ ∀ entry ∈ s.calls, entry.1 ≠ s.xid
  | _ => True

def CallTable.Covered (s : CallTable) : Prop :=
  ∀ address ca, s.frames address = some ca → ca.registered = true → (ca.xid, address) ∈ s.calls

theorem CallTable.Covered.reframe {s : CallTable} (covered : s.Covered)
    {frames : Nat → Option CallFrame}
    (kept : ∀ address, frames address = s.frames address ∨
      ∃ ca next, s.frames address = some ca ∧ frames address = some next ∧ next.xid = ca.xid ∧
        next.registered = ca.registered) :
    CallTable.Covered { s with frames := frames } := by
  intro address ca here registered
  rcases kept address with same | ⟨old, next, before, after, xid, phase⟩
  · exact covered address ca (same.symm.trans here) registered
  · cases after.symm.trans here
    rw [xid]
    exact covered address old before (phase.symm.trans registered)

theorem CallTable.Covered.enter {s : CallTable} (covered : s.Covered) (sound : s.Sound)
    {proc : Nat} (noClash : NoClash s (.enter proc)) : (s.enter proc).Covered := by
  rcases s.enter_cases proc with ⟨value, refused⟩ | ⟨-, registers⟩
  · rw [refused]
    exact covered
  · have apart : ∀ entry ∈ s.calls, entry.1 ≠ s.xid := by
      rcases noClash with same | apart
      · rw [registers] at same
        have member : (s.xid, s.started) ∈ s.calls := by
          rw [← same]
          exact List.mem_append_right _ List.mem_cons_self
        obtain ⟨ca, here, -⟩ := sound.alive _ member
        rw [sound.unused s.started (Nat.le_refl _)] at here
        cases here
      · exact apart
    rw [registers]
    intro address ca here registered
    by_cases new : address = s.started
    · subst new
      cases (Function.update_self _ _ _).symm.trans here
      exact List.mem_append_right _ List.mem_cons_self
    · have old := covered address ca ((Function.update_of_ne new _ _).symm.trans here) registered
      apply List.mem_append_left
      rw [List.mem_filter]
      exact ⟨old, decide_eq_true (apart _ old)⟩

theorem CallTable.Covered.leave {s next : CallTable} (covered : s.Covered) (sound : s.Sound)
    {address : Nat} (left : s.leave address = some next) : next.Covered := by
  obtain ⟨ca, here, registered, rfl⟩ := CallTable.leave_some left
  intro other otherCa found otherRegistered
  by_cases same : other = address
  · subst same
    cases (Function.update_self _ _ _).symm.trans found
    cases otherRegistered
  · have old := covered other otherCa ((Function.update_of_ne same _ _).symm.trans found)
      otherRegistered
    rw [List.mem_filter]
    refine ⟨old, decide_eq_true ?_⟩
    -- the erased key is the key of the leaving call alone
    intro sameXid
    have equal := List.inj_on_of_nodup_map sound.keys old (covered address ca here registered)
      sameXid
    exact same (congrArg Prod.snd equal)

theorem CallTable.Covered.step {s next : CallTable} (covered : s.Covered) (sound : s.Sound)
    {action : CallAction} (noClash : NoClash s action) (taken : s.step action = some next) :
    next.Covered := by
  cases action with
  | enter proc =>
      cases taken
      exact covered.enter sound noClash
  | leave address => exact covered.leave sound taken
  | finish address =>
      obtain ⟨ca, here, -, rfl⟩ := CallTable.finish_some taken
      intro other otherCa found registered
      by_cases same : other = address
      · subst same
        cases (Function.update_self _ _ _).symm.trans found
      · exact covered other otherCa ((Function.update_of_ne same _ _).symm.trans found) registered
  | gotPdu xid ret body =>
      obtain ⟨frames, ran, kept⟩ := sound.gotPdu_eq xid ret body
      cases ran.symm.trans taken
      apply covered.reframe
      intro address
      rcases kept address with same | ⟨ca, before, after⟩
      · exact Or.inl same
      · exact Or.inr ⟨ca, _, before, after, ca.takeIn_kept ret body⟩
  | cancel thread =>
      dsimp only [CallTable.step] at taken
      split at taken
      · cases taken
      · obtain ⟨frames, ran, kept⟩ := sound.cancel_eq thread
        cases ran.symm.trans taken
        have reframed : CallTable.Covered { s with frames := frames } := by
          apply covered.reframe
          intro address
          rcases kept address with same | ⟨ca, before, after⟩
          · exact Or.inl same
          · exact Or.inr ⟨ca, _, before, after, rfl, rfl⟩
        obtain ⟨calls, sameFrames, -⟩ := CallTable.drain_kept { s with frames := frames } thread
        unfold CallTable.Covered
        rw [calls, sameFrames]
        exact reframed
  | wake thread =>
      dsimp only [CallTable.step] at taken
      split at taken
      · cases taken
        obtain ⟨calls, frames, -⟩ :=
          CallTable.drain_kept { s with cancels := s.cancels.erase thread } thread
        unfold CallTable.Covered CallTable.wake
        rw [calls, frames]
        exact covered
      · cases taken
  | bound =>
      cases taken
      exact covered

structure CallTable.Settled (s : CallTable) (address : Nat) (ca : CallFrame) : Prop where
  before : address < s.started
  outcome : ∀ next, s.frames address = some next → next.done = true ∧ next.un = ca.un ∧
    (next.intret = ca.intret ∨ next.intret = RpcConst.cancelFailure)

theorem CallTable.Settled.step {s next : CallTable} {address : Nat} {ca : CallFrame}
    (settled : s.Settled address ca) (sound : s.Sound) {action : CallAction}
    (taken : s.step action = some next) : next.Settled address ca := by
  cases action with
  | enter proc =>
      cases taken
      rcases s.enter_cases proc with ⟨value, refused⟩ | ⟨-, registers⟩
      · rw [refused]
        exact ⟨Nat.lt_succ_of_lt settled.before, settled.outcome⟩
      · rw [registers]
        refine ⟨Nat.lt_succ_of_lt settled.before, fun later found => settled.outcome later ?_⟩
        exact (Function.update_of_ne (Nat.ne_of_lt settled.before) _ _).symm.trans found
  | leave other =>
      obtain ⟨otherCa, here, -, rfl⟩ := CallTable.leave_some taken
      refine ⟨settled.before, fun later found => ?_⟩
      by_cases same : address = other
      · subst same
        cases (Function.update_self _ _ _).symm.trans found
        exact settled.outcome otherCa here
      · exact settled.outcome later ((Function.update_of_ne same _ _).symm.trans found)
  | finish other =>
      obtain ⟨otherCa, here, -, rfl⟩ := CallTable.finish_some taken
      refine ⟨settled.before, fun later found => ?_⟩
      by_cases same : address = other
      · subst same
        cases (Function.update_self _ _ _).symm.trans found
      · exact settled.outcome later ((Function.update_of_ne same _ _).symm.trans found)
  | gotPdu xid ret body =>
      obtain ⟨frames, ran, kept⟩ := sound.gotPdu_eq xid ret body
      cases ran.symm.trans taken
      refine ⟨settled.before, fun later found => ?_⟩
      rcases kept address with same | ⟨old, before, after⟩
      · exact settled.outcome later (same.symm.trans found)
      · have was := settled.outcome old before
        have unchanged : old.takeIn ret body = old := if_pos was.1
        rw [unchanged] at after
        cases after.symm.trans found
        exact was
  | cancel thread =>
      dsimp only [CallTable.step] at taken
      split at taken
      · cases taken
      · obtain ⟨frames, ran, kept⟩ := sound.cancel_eq thread
        cases ran.symm.trans taken
        obtain ⟨-, sameFrames, sameStarted, -⟩ :=
          CallTable.drain_kept { s with frames := frames } thread
        refine ⟨sameStarted.symm ▸ settled.before, fun later found => ?_⟩
        rw [sameFrames] at found
        rcases kept address with same | ⟨old, before, after⟩
        · exact settled.outcome later (same.symm.trans found)
        · have was := settled.outcome old before
          cases after.symm.trans found
          exact ⟨rfl, was.2.1, Or.inr rfl⟩
  | wake thread =>
      dsimp only [CallTable.step] at taken
      split at taken
      · cases taken
        obtain ⟨-, sameFrames, sameStarted, -⟩ :=
          CallTable.drain_kept { s with cancels := s.cancels.erase thread } thread
        refine ⟨sameStarted.symm ▸ settled.before, fun later found => ?_⟩
        exact settled.outcome later (sameFrames ▸ found)
      · cases taken
  | bound =>
      cases taken
      exact ⟨settled.before, settled.outcome⟩

theorem CallTable.Sound.step_fewer {s next : CallTable} {action : CallAction} (sound : s.Sound)
    (notEnter : ∀ proc, action ≠ .enter proc) (taken : s.step action = some next) :
    next.xid = s.xid ∧ next.calls ⊆ s.calls ∧
      (s.destroyWait = true → next.destroyWait = true) := by
  cases action with
  | enter proc => exact absurd rfl (notEnter proc)
  | leave address =>
      obtain ⟨ca, -, -, rfl⟩ := CallTable.leave_some taken
      exact ⟨rfl, List.filter_sublist.subset, id⟩
  | finish address =>
      obtain ⟨ca, -, -, rfl⟩ := CallTable.finish_some taken
      exact ⟨rfl, List.Subset.refl _, id⟩
  | gotPdu xid ret body =>
      obtain ⟨frames, ran, -⟩ := sound.gotPdu_eq xid ret body
      cases ran.symm.trans taken
      exact ⟨rfl, List.Subset.refl _, id⟩
  | cancel thread =>
      dsimp only [CallTable.step] at taken
      split at taken
      · cases taken
      · obtain ⟨frames, ran, -⟩ := sound.cancel_eq thread
        cases ran.symm.trans taken
        unfold CallTable.drain
        split
        · exact ⟨rfl, List.Subset.refl _, id⟩
        · exact ⟨rfl, List.Subset.refl _, fun _ => rfl⟩
  | wake thread =>
      dsimp only [CallTable.step] at taken
      split at taken
      · cases taken
        unfold CallTable.wake CallTable.drain
        split
        · exact ⟨rfl, List.Subset.refl _, id⟩
        · exact ⟨rfl, List.Subset.refl _, fun _ => rfl⟩
      · cases taken
  | bound =>
      cases taken
      exact ⟨rfl, List.Subset.refl _, id⟩

/-- Once a `cancel` has waited, no section adds an entry. -/
theorem CallTable.Sound.step_waiting {s next : CallTable} {action : CallAction} (sound : s.Sound)
    (waiting : s.destroyWait = true) (taken : s.step action = some next) :
    next.destroyWait = true ∧ next.calls ⊆ s.calls := by
  by_cases entering : ∃ proc, action = .enter proc
  · obtain ⟨proc, rfl⟩ := entering
    cases taken
    rcases s.enter_cases proc with ⟨value, refused⟩ | ⟨notWaiting, -⟩
    · rw [refused]
      exact ⟨waiting, List.Subset.refl _⟩
    · rw [waiting] at notWaiting
      cases notWaiting
  · obtain ⟨-, fewer, still⟩ :=
      sound.step_fewer (fun proc same => entering ⟨proc, same⟩) taken
    exact ⟨still waiting, fewer⟩

end CseLab.Rpc
