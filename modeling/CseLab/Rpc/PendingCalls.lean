import CseLab.Rpc.CallTable

/-! The calls of a client over whole runs: what each of them returns, and what the
wrap of `xid_` after 2^32 calls does to them. -/

namespace CseLab.Rpc

open Transition

/-! ### Runs -/

theorem CallTable.Sound.settled_run {s final : CallTable} (sound : s.Sound)
    {actions : List CallAction} (ran : run CallTable.step s actions = some final) {address : Nat}
    {ca : CallFrame} (here : s.frames address = some ca) (done : ca.done = true) :
    final.Settled address ca := by
  have before : address < s.started := by
    by_contra later
    rw [sound.unused address (Nat.not_lt.mp later)] at here
    cases here
  have settled : s.Settled address ca := by
    refine ⟨before, fun next found => ?_⟩
    cases here.symm.trans found
    exact ⟨done, rfl, Or.inl rfl⟩
  have preserved : ∀ (state : CallTable) action next,
      state.Sound ∧ state.Settled address ca → state.step action = some next →
        next.Sound ∧ next.Settled address ca :=
    fun _state _action _next holds taken => ⟨holds.1.step taken, holds.2.step holds.1 taken⟩
  exact (run_invariant preserved ⟨sound, settled⟩ ran).2

theorem CallTable.Sound.waiting_run {s final : CallTable} (sound : s.Sound)
    {actions : List CallAction} (ran : run CallTable.step s actions = some final)
    (waiting : s.destroyWait = true) : final.calls ⊆ s.calls := by
  have preserved : ∀ (state : CallTable) action next,
      state.Sound ∧ state.destroyWait = true ∧ state.calls ⊆ s.calls →
      state.step action = some next →
        next.Sound ∧ next.destroyWait = true ∧ next.calls ⊆ s.calls := by
    intro state action next holds taken
    obtain ⟨still, fewer⟩ := holds.1.step_waiting holds.2.1 taken
    exact ⟨holds.1.step taken, still, List.Subset.trans fewer holds.2.2⟩
  exact (run_invariant preserved ⟨sound, waiting, List.Subset.refl _⟩ ran).2.2

theorem covered_run {actions : List CallAction} {s : CallTable}
    (guarded : Guarded CallTable.step NoClash .start actions)
    (ran : run CallTable.step .start actions = some s) : s.Covered := by
  have preserved : ∀ (state : CallTable) action next, state.Sound ∧ state.Covered →
      NoClash state action → state.step action = some next → next.Sound ∧ next.Covered :=
    fun _state _action _next holds noClash taken =>
      ⟨holds.1.step taken, holds.2.step holds.1 noClash taken⟩
  exact (guarded.invariant preserved ⟨.start, fun _address _ca here => nomatch here⟩ ran).2

theorem CallTable.Sound.addresses_nodup {s : CallTable} (sound : s.Sound) :
    (s.calls.map Prod.snd).Nodup := by
  apply List.Nodup.map_on _ sound.keys.of_map
  intro left leftMember right rightMember same
  obtain ⟨leftCa, leftHere, leftXid, -⟩ := sound.alive left leftMember
  obtain ⟨rightCa, rightHere, rightXid, -⟩ := sound.alive right rightMember
  rw [same, rightHere] at leftHere
  have sameKey : left.1 = right.1 := by
    rw [← leftXid, ← rightXid, Option.some.inj leftHere]
  exact Prod.ext sameKey same

theorem CallTable.drain_returns {s : CallTable} {thread : Nat}
    (returns : thread ∉ (s.drain thread).cancels) : (s.drain thread).calls = [] := by
  unfold CallTable.drain at returns ⊢
  split at returns
  · rename_i empty
    rw [if_pos empty]
    exact empty
  · exact absurd List.mem_cons_self returns

/-- The entries of `calls_` point to registered callers; each registered call
has exactly one, unless one of them was registered under an xid in use. A done
caller keeps its reply, and `cancel` drains the table. -/
theorem pending_calls {actions : List CallAction} {s : CallTable}
    (ran : run CallTable.step .start actions = some s) :
    (Guarded CallTable.step NoClash .start actions → ∀ address,
      (s.Registered address → (s.calls.map Prod.snd).count address = 1) ∧
      (¬s.Registered address → (s.calls.map Prod.snd).count address = 0)) ∧
    (∀ entry ∈ s.calls, s.Registered entry.2) ∧
    (∀ xid ret body, ∃ next, s.gotPdu xid ret body = some next ∧ ∀ address ca,
      s.frames address = some ca → ca.done = true → next.frames address = some ca) ∧
    (∀ thread, ∃ next, s.cancel thread = some next) ∧
    (∀ later final address ca, run CallTable.step s later = some final →
      s.frames address = some ca → ca.done = true → final.Settled address ca) ∧
    (s.cancels ≠ [] → ∀ later final, run CallTable.step s later = some final →
      final.calls ⊆ s.calls) ∧
    (∀ thread next, s.step (.cancel thread) = some next ∨ s.step (.wake thread) = some next →
      thread ∉ next.cancels → next.calls = []) := by
  have sound := CallTable.Sound.start.afterRun ran
  have registered : ∀ entry ∈ s.calls, s.Registered entry.2 := by
    intro entry member
    obtain ⟨ca, here, -, registered⟩ := sound.alive entry member
    exact ⟨ca, here, registered⟩
  refine ⟨?_, registered, ?_, ?_, ?_, ?_, ?_⟩
  · intro guarded address
    constructor
    · rintro ⟨ca, here, isRegistered⟩
      apply List.count_eq_one_of_mem sound.addresses_nodup
      exact List.mem_map.mpr ⟨_, covered_run guarded ran address ca here isRegistered, rfl⟩
    · intro unregistered
      apply List.count_eq_zero_of_not_mem
      intro member
      obtain ⟨entry, inside, rfl⟩ := List.mem_map.mp member
      exact unregistered (registered entry inside)
  · intro xid ret body
    obtain ⟨frames, got, kept⟩ := sound.gotPdu_eq xid ret body
    refine ⟨_, got, fun address ca here done => ?_⟩
    rcases kept address with same | ⟨old, before, after⟩
    · exact same.trans here
    · cases here.symm.trans before
      exact after.trans (congrArg some (if_pos done))
  · intro thread
    obtain ⟨frames, cancelled, -⟩ := sound.cancel_eq thread
    exact ⟨_, cancelled⟩
  · exact fun later final address ca after here done => sound.settled_run after here done
  · exact fun waiting later final after => sound.waiting_run after (sound.waits waiting)
  · rintro thread next (cancelled | woken) returns
    · dsimp only [CallTable.step] at cancelled
      split at cancelled
      · cases cancelled
      · obtain ⟨frames, same, -⟩ := sound.cancel_eq thread
        cases same.symm.trans cancelled
        exact CallTable.drain_returns returns
    · dsimp only [CallTable.step] at woken
      split at woken
      · cases woken
        exact CallTable.drain_returns returns
      · cases woken

/-! ### Up to 2^32 calls -/

structure CallTable.Numbered (s : CallTable) (count : Nat) : Prop where
  next : s.xid = UInt32.ofNat (1 + count)
  used : ∀ entry ∈ s.calls, ∃ earlier < count, entry.1 = UInt32.ofNat (1 + earlier)

theorem CallTable.Numbered.apart {s : CallTable} {count : Nat} (numbered : s.Numbered count)
    (few : count < 2 ^ 32) : ∀ entry ∈ s.calls, entry.1 ≠ s.xid := by
  intro entry member same
  obtain ⟨earlier, before, key⟩ := numbered.used entry member
  rw [key, numbered.next] at same
  have equal := congrArg UInt32.toNat same
  rw [UInt32.toNat_ofNat', UInt32.toNat_ofNat'] at equal
  omega

theorem CallTable.Numbered.enter {s : CallTable} {count : Nat} (numbered : s.Numbered count)
    (proc : Nat) : (s.enter proc).Numbered count ∨ (s.enter proc).Numbered (count + 1) := by
  rcases s.enter_cases proc with ⟨value, refused⟩ | ⟨-, registers⟩
  · rw [refused]
    exact Or.inl ⟨numbered.next, numbered.used⟩
  · rw [registers]
    refine Or.inr ⟨?_, ?_⟩
    · change s.xid + 1 = _
      rw [numbered.next, ← Nat.add_assoc, UInt32.ofNat_add (1 + count) 1]
      rfl
    · intro entry member
      rcases List.mem_append.mp member with old | new
      · obtain ⟨earlier, before, key⟩ := numbered.used entry (List.mem_filter.mp old).1
        exact ⟨earlier, Nat.lt_succ_of_lt before, key⟩
      · rw [List.mem_singleton.mp new]
        exact ⟨count, Nat.lt_succ_self count, numbered.next⟩

def CallAction.isEnter : CallAction → Bool
  | .enter _ => true
  | _ => false

private theorem guarded_from {s : CallTable} {count : Nat} {actions : List CallAction}
    (sound : s.Sound) (numbered : s.Numbered count)
    (few : count + actions.countP CallAction.isEnter ≤ 2 ^ 32) :
    Guarded CallTable.step NoClash s actions := by
  induction actions generalizing s count with
  | nil => trivial
  | cons action rest ih =>
      by_cases entering : ∃ proc, action = .enter proc
      · obtain ⟨proc, rfl⟩ := entering
        rw [List.countP_cons_of_pos (by rfl)] at few
        constructor
        · exact Or.inr (numbered.apart (by omega))
        · intro next taken
          have nextSound := sound.step taken
          cases taken
          rcases numbered.enter proc with same | more
          · exact ih nextSound same (by omega)
          · exact ih nextSound more (by omega)
      · have notEnter : ∀ proc, action ≠ .enter proc := fun proc same => entering ⟨proc, same⟩
        rw [List.countP_cons_of_neg (by
          cases action <;> first | exact absurd rfl (notEnter _) | exact Bool.false_ne_true)] at few
        constructor
        · cases action with
          | enter proc => exact absurd rfl (notEnter proc)
          | _ => trivial
        · intro next taken
          obtain ⟨sameXid, fewer, -⟩ := sound.step_fewer notEnter taken
          exact ih (sound.step taken)
            ⟨sameXid.trans numbered.next, fun entry member => numbered.used entry (fewer member)⟩
            few

/-- Before 2^32 calls have begun no xid comes round. -/
theorem guarded_of_few {actions : List CallAction}
    (few : actions.countP CallAction.isEnter ≤ 2 ^ 32) :
    Guarded CallTable.step NoClash .start actions :=
  guarded_from .start ⟨rfl, fun _entry member => absurd member List.not_mem_nil⟩
    (by rw [Nat.zero_add]; exact few)

theorem pending_calls_sample :
    let actions := [.enter 1, .gotPdu 1 0 [], .leave 0, .finish 0, .bound, .enter 5, .cancel 7]
    ∃ s, run CallTable.step .start actions = some s ∧
      (s.calls.map Prod.snd).count 1 = 1 ∧ (s.calls.map Prod.snd).count 0 = 0 ∧
      ∀ final, run CallTable.step s [.leave 1, .enter 5, .wake 7] = some final →
        final.calls ⊆ s.calls := by
  refine ⟨_, rfl, ?_⟩
  obtain ⟨counts, -, -, -, -, waiting, -⟩ := @pending_calls
    [.enter 1, .gotPdu 1 0 [], .leave 0, .finish 0, .bound, .enter 5, .cancel 7] _ rfl
  have guarded := counts (guarded_of_few (by decide))
  refine ⟨(guarded 1).1 ⟨_, rfl, rfl⟩, (guarded 0).2 ?_, waiting (List.cons_ne_nil _ _) _⟩
  rintro ⟨ca, here, -⟩
  cases here

/-! ### After 2^32 calls -/

def timeouts (first count : Nat) : List CallAction :=
  (List.range' first count).flatMap
    (fun address => [.enter 5, .leave address, .finish address])

private theorem enter_registers {s : CallTable} (bound : s.bindDone = true)
    (notWaiting : s.destroyWait = false) :
    s.enter 5 = { s with
      xid := s.xid + 1
      calls := s.calls.filter (fun entry => entry.1 ≠ s.xid) ++ [(s.xid, s.started)]
      frames := Function.update s.frames s.started (some
        { xid := s.xid, un := [], intret := 0, done := false, registered := true })
      started := s.started + 1 } := by
  unfold CallTable.enter
  rw [if_neg (by rw [bound]; decide), notWaiting]
  rfl

private theorem run_timeout {s : CallTable} (bound : s.bindDone = true)
    (notWaiting : s.destroyWait = false) (unused : s.frames s.started = none)
    (apart : ∀ entry ∈ s.calls, entry.1 ≠ s.xid) :
    ∃ returned, run CallTable.step s [.enter 5, .leave s.started, .finish s.started] =
      some { s with xid := s.xid + 1, started := s.started + 1, returned := returned } := by
  have kept : s.calls.filter (fun entry => entry.1 ≠ s.xid) = s.calls :=
    List.filter_eq_self.mpr (fun entry member => decide_eq_true (apart entry member))
  refine ⟨(s.started, RpcConst.timeoutFailure) :: s.returned, ?_⟩
  rw [run_cons]
  change (some (s.enter 5)).bind _ = _
  rw [enter_registers bound notWaiting, kept, Option.bind_some, run_cons]
  simp only [CallTable.step, CallTable.leave, Function.update_self, Option.bind_eq_bind,
    Option.bind_some, if_true, run_cons, CallTable.finish, Bool.false_eq_true, if_false, run_nil,
    Function.update_idem, List.filter_append, kept]
  rw [← unused, Function.update_eq_self]
  simp

private theorem run_timeouts (count : Nat) {s : CallTable} (bound : s.bindDone = true)
    (notWaiting : s.destroyWait = false)
    (unused : ∀ address, s.started ≤ address → s.frames address = none)
    (apart : ∀ later < count, ∀ entry ∈ s.calls, entry.1 ≠ s.xid + UInt32.ofNat later) :
    ∃ returned, run CallTable.step s (timeouts s.started count) =
      some { s with
        xid := s.xid + UInt32.ofNat count
        started := s.started + count
        returned := returned } := by
  induction count generalizing s with
  | zero => exact ⟨s.returned, by simp [timeouts]⟩
  | succ count ih =>
      obtain ⟨returned, one⟩ := run_timeout bound notWaiting (unused _ (Nat.le_refl _))
        (fun entry member => by simpa using apart 0 (Nat.succ_pos count) entry member)
      obtain ⟨returned', rest⟩ := @ih
        { s with xid := s.xid + 1, started := s.started + 1, returned := returned } bound notWaiting
        (fun address later => unused address (Nat.le_of_succ_le later)) (by
          intro later below entry member same
          apply apart (later + 1) (by omega) entry member
          rw [same, UInt32.ofNat_add, UInt32.add_comm (UInt32.ofNat later), ← UInt32.add_assoc]
          rfl)
      refine ⟨returned', ?_⟩
      have split : timeouts s.started (count + 1) =
          [.enter 5, .leave s.started, .finish s.started] ++ timeouts (s.started + 1) count := by
        unfold timeouts
        rw [List.range'_succ, List.flatMap_cons]
      rw [split, run_append, one, Option.bind_some, rest, UInt32.ofNat_add,
        UInt32.add_comm (UInt32.ofNat count), ← UInt32.add_assoc]
      simp only [Option.some.injEq, CallTable.mk.injEq, true_and, and_true]
      exact ⟨rfl, by omega⟩

/-- One call waits while 2^32 - 1 others time out; the next one gets its xid, and
its entry replaces that of the waiting call. -/
theorem entry_replaced :
    ∃ s, run CallTable.step .start
        ([.enter 1, .gotPdu 1 0 [], .leave 0, .finish 0, .bound, .enter 5] ++
          (timeouts 2 (2 ^ 32 - 1) ++ [.enter 5])) = some s ∧
      s.Registered 1 ∧ (s.calls.map Prod.snd).count 1 = 0 := by
  obtain ⟨s, ran, bound, notWaiting, xid, calls, started, waits⟩ :
      ∃ s, run CallTable.step .start
          [.enter 1, .gotPdu 1 0 [], .leave 0, .finish 0, .bound, .enter 5] = some s ∧
        s.bindDone = true ∧ s.destroyWait = false ∧ s.xid = 3 ∧ s.calls = [(2, 1)] ∧
        s.started = 2 ∧ s.Registered 1 :=
    ⟨_, rfl, rfl, rfl, rfl, rfl, rfl, _, rfl, rfl⟩
  have unused := (CallTable.Sound.start.afterRun ran).unused
  obtain ⟨returned, after⟩ := run_timeouts (2 ^ 32 - 1) bound notWaiting unused (by
    intro later below entry member same
    rw [calls, List.mem_singleton] at member
    rw [member, xid] at same
    have equal := congrArg UInt32.toNat same
    rw [UInt32.toNat_add, UInt32.toNat_ofNat'] at equal
    change 2 = (3 + later % 2 ^ 32) % 2 ^ 32 at equal
    omega)
  rw [started] at after
  obtain ⟨full, ranFull, stillBound, still, word, sameCalls, sameFrames, many⟩ :
      ∃ full, run CallTable.step s (timeouts 2 (2 ^ 32 - 1)) = some full ∧
        full.bindDone = true ∧ full.destroyWait = false ∧ full.xid = 2 ∧ full.calls = [(2, 1)] ∧
        full.frames = s.frames ∧ full.started = 2 + (2 ^ 32 - 1) := by
    refine ⟨_, after, bound, notWaiting, ?_, calls, rfl, rfl⟩
    change s.xid + UInt32.ofNat (2 ^ 32 - 1) = 2
    rw [xid]
    decide
  refine ⟨full.enter 5, ?_, ?_, ?_⟩
  · rw [run_append, ran, Option.bind_some, run_append, ranFull]
    rfl
  · obtain ⟨ca, here, registered⟩ := waits
    refine ⟨ca, ?_, registered⟩
    rw [enter_registers stillBound still]
    change Function.update full.frames full.started _ 1 = some ca
    rw [Function.update_of_ne (by omega), sameFrames, here]
  · rw [enter_registers stillBound still, sameCalls, word]
    apply List.count_eq_zero_of_not_mem
    change 1 ∉ [full.started]
    rw [List.mem_singleton]
    omega

end CseLab.Rpc
