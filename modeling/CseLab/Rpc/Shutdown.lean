import CseLab.Rpc.Collecting

/-! The destructor of a listening server, and what holds of its connections over whole
runs, the destructor's steps among the others. -/

namespace CseLab.Rpc

open RefCount Transition

section Destructor

variable {s next : Listener} {c : Conn}

theorem Listener.Sound.destroy (sound : s.Sound) (taken : s.step .destroy = some next) :
    next.Sound := by
  simp only [Listener.step] at taken
  split at taken
  · rename_i here
    cases taken
    refine sound.moves ?_ ?_ trivial
    · rw [Listener.held_at here]
      exact .refl _
    · rw [here]
      exact fun _ _ => Owner.noConfusion
  · cases taken

theorem Listener.Sound.release (sound : s.Sound) (taken : s.step .release = some next) :
    next.Sound := by
  simp only [Listener.step] at taken
  split at taken
  · rename_i c rest here
    cases taken
    refine sound.gives (sound.placed_at here) ?_ ?_ trivial
    · rw [Listener.held_at here]
      exact .refl _
    · rw [here]
      exact fun _ _ => Owner.noConfusion
  · cases taken

theorem Listener.Sound.closeconn (sound : s.Sound) (taken : s.step .closeconn = some next) :
    next.Sound := by
  simp only [Listener.step] at taken
  split at taken
  · rename_i c rest here
    have held : s.held = c :: rest := Listener.held_at here
    split at taken
    · rename_i dead
      cases taken
      refine sound.moves ?_ ?_ dead
      · rw [held]
        exact .refl _
      · rw [here]
        exact fun _ _ => Owner.noConfusion
    · cases taken
      refine ⟨sound.toAccounts.kept rfl rfl rfl rfl (held ▸ .refl _), ?_, ?_, sound.failing,
        Function.update_self ..⟩
      · intro d made gone
        exact still_dead c (sound.released d made (held ▸ gone))
      · refine sound.callbacks.mono fun d registered =>
          registered.imp_right fun removing dead => ?_
        by_cases same : d = c
        · exact .inr ⟨rest, same ▸ rfl⟩
        · refine (removing ((Function.update_of_ne same _ _).symm.trans dead)).imp id ?_
          rintro ⟨later, there⟩
          exact absurd (here.symm.trans there) Owner.noConfusion
  · cases taken

theorem Listener.Sound.removed (sound : s.Sound) (taken : s.step .removed = some next) :
    next.Sound := by
  simp only [Listener.step] at taken
  split at taken
  · rename_i c rest here
    cases taken
    have held : s.held = c :: rest := Listener.held_at here
    have dead : s.dead c = true := sound.placed_at here
    refine ⟨sound.toAccounts.kept rfl rfl rfl rfl (held ▸ .refl _), ?_, ?_, sound.failing, dead⟩
    · exact fun d made gone => sound.released d made (held ▸ gone)
    · refine sound.callbacks.clear (s.channo c) fun d other registered =>
        registered.imp_right fun removing dead => (removing dead).imp id ?_
      rintro ⟨later, there⟩
      exact absurd (congrArg s.channo (Owner.removing.inj (here.symm.trans there)).1.symm) other
  · cases taken

theorem Listener.Sound.step (sound : s.Sound) {action : ListenerAction}
    (taken : s.step action = some next) : next.Sound := by
  cases action with
  | accept fd ch => exact sound.accept taken
  | scan => exact sound.scan taken
  | collect => exact sound.collect taken
  | insert => exact sound.insert taken
  | destroy => exact sound.destroy taken
  | closeconn => exact sound.closeconn taken
  | removed => exact sound.removed taken
  | release => exact sound.release taken
  | broken fd => exact sound.broken taken
  | sendFails index => exact sound.sendFails taken
  | sendRemoved index => exact sound.sendRemoved taken
  | arrives fd action => exact sound.arrives taken
  | serves action => exact sound.serving taken

/-- When the destructor has gone through `conns_`, nothing arrives any more. -/
theorem Listener.Sound.arrives_none (sound : s.Sound) (destroyed : s.owner = .closing [])
    (fd : Nat) (action : RefAction) : s.step (.arrives fd action) = none := by
  have held : s.held = [] := Listener.held_at destroyed
  simp only [Listener.step]
  split
  · rename_i c here
    refine if_neg fun guard => ?_
    have made := (sound.callbacks fd c guard.1).2.1
    have dead := sound.released c made (held ▸ List.not_mem_nil)
    rw [guard.2] at dead
    cases dead
  · rfl

theorem Listener.Sound.destroyed_step (sound : s.Sound) (destroyed : s.owner = .closing [])
    {action : ListenerAction} (taken : s.step action = some next) :
    next.owner = .closing [] ∧
      next.refs.server.jobs.length = s.refs.server.jobs.length := by
  cases action with
  | accept _ _ | scan | collect | insert | destroy | closeconn | removed | release =>
      simp only [Listener.step, destroyed] at taken
      cases taken
  | broken fd =>
      simp only [Listener.step] at taken
      split at taken
      · split at taken
        · cases taken
        · cases taken
          exact ⟨destroyed, rfl⟩
      · cases taken
  | sendFails index =>
      simp only [Listener.step] at taken
      split at taken
      · obtain ⟨_guard, same⟩ := Option.ite_none_right_eq_some.mp taken
        cases same
        exact ⟨destroyed, rfl⟩
      · cases taken
  | sendRemoved index =>
      simp only [Listener.step] at taken
      split at taken
      · obtain ⟨_guard, same⟩ := Option.ite_none_right_eq_some.mp taken
        cases same
        exact ⟨destroyed, rfl⟩
      · cases taken
  | arrives fd action =>
      rw [sound.arrives_none destroyed fd action] at taken
      cases taken
  | serves action =>
      simp only [Listener.step] at taken
      obtain ⟨guard, recounted⟩ := Option.ite_none_right_eq_some.mp taken
      obtain ⟨refs, served, rfl⟩ := Option.map_eq_some_iff.mp recounted
      refine ⟨destroyed, ?_⟩
      cases action with
      | gotPdu c _ | gotShort c | refused c => cases guard.1
      | job index action =>
          obtain ⟨job, here, rest⟩ := Option.bind_eq_some_iff.mp served
          obtain ⟨⟨shared, after⟩, acted, rfl⟩ := Option.map_eq_some_iff.mp rest
          exact List.length_set
      | dropShort index =>
          obtain ⟨c, here, rfl⟩ := Option.map_eq_some_iff.mp served
          rfl

end Destructor

variable {nonce : UInt32} {procs : Nat → Bool} {actions : List ListenerAction} {s : Listener}

theorem Listener.sound_run (ran : run Listener.step (.start nonce procs) actions = some s) :
    s.Sound :=
  run_invariant (fun _state _action _next holds taken => holds.step taken)
    (.start nonce procs) ran

/-- No pointer that the listener still follows, and none of a job, of `conns_` or of the poll
manager, leads to a connection that has been deleted; the destructor does not come back
to an entry that it has released. The poll manager has no callback for a descriptor that
`accept` can return, and the new entry of `conns_` displaces none. -/
theorem connections_live
    (ran : run Listener.step (.start nonce procs) actions = some s) :
    (∀ c, c ∈ s.held ∨ s.refs.PointsTo c → c ∈ s.heap) ∧
      (s.owner.ahead.Sublist s.held ∧ s.held.Nodup) ∧
      (∀ fd c, s.callbacks fd = some c → s.channo c = fd ∧ c ∈ s.heap) ∧
      (∀ fd, fd ∉ s.heap.map s.channo → s.callbacks fd = none) ∧
      ∀ ch rest, s.owner = .scanning ch rest → ∀ c ∈ s.conns, s.channo c ≠ s.channo ch := by
  have sound := Listener.sound_run ran
  refine ⟨?_, ⟨sound.ahead_held, sound.nodup⟩, sound.registered_live,
    fun fd => sound.registered_live.free, fun ch rest => sound.unregistered⟩
  rintro c (held | points)
  · exact sound.held_live held
  · exact sound.pointed_live points

private def caller (id : Nat) : Conn := { owner := 5, id := id, createTime := 0 }

private def anonymous : Request :=
  { xid := 1, proc := 1, cltNonce := 0, srvNonce := 9, xidRep := 0, args := [] }

private def collectRun : List ListenerAction :=
  [.accept 5 (caller 0), .insert, .arrives 5 (.gotPdu (caller 0) anonymous),
    .serves (.job 0 .prepare), .serves (.job 0 (.handle 0 (BigEndian.bytes32 9))),
    .serves (.job 0 (.choose false)), .sendFails 0, .accept 6 (caller 1), .scan, .insert,
    .sendRemoved 0, .serves (.job 0 .send), .accept 7 (caller 2), .scan, .collect, .scan, .insert]

theorem connections_live_collected :
    ∃ s, run Listener.step (.start 9 fun _ => false) collectRun = some s ∧
      (s.channo (caller 1) = 6 ∧ caller 1 ∈ s.heap) ∧ s.callbacks 5 = none := by
  have ran : (run Listener.step (.start 9 fun _ => false) collectRun).isSome := by decide
  obtain ⟨s, ran⟩ := Option.isSome_iff_exists.mp ran
  have ends : (run Listener.step (.start 9 fun _ => false) collectRun).all (fun s =>
      s.callbacks 6 = some (caller 1) ∧ 5 ∉ s.heap.map s.channo) = true := by decide
  rw [ran] at ends
  obtain ⟨registered, closed⟩ := of_decide_eq_true ends
  have live := connections_live ran
  exact ⟨s, ran, live.2.2.1 6 (caller 1) registered, live.2.2.2.1 5 closed⟩

/-- A connection stays on the heap exactly as long as the listener has not given it up,
something of the server points to it or a request for an old instance was answered on it. -/
theorem connection_lifetime
    (ran : run Listener.step (.start nonce procs) actions = some s) {c : Conn}
    (made : c ∈ s.made) :
    c ∈ s.heap ↔ c ∈ s.held ∨ s.refs.PointsTo c ∨
      ∃ job ∈ s.refs.server.jobs, job.leaks s.refs.server.nonce c = true :=
  (Listener.sound_run ran).heap_iff made

theorem connection_lifetime_collected :
    ∃ s, run Listener.step (.start 9 fun _ => false) collectRun = some s ∧
      ¬(caller 0 ∈ s.held ∨ s.refs.PointsTo (caller 0) ∨
        ∃ job ∈ s.refs.server.jobs, job.leaks s.refs.server.nonce (caller 0) = true) := by
  have ran : (run Listener.step (.start 9 fun _ => false) collectRun).isSome := by decide
  obtain ⟨s, ran⟩ := Option.isSome_iff_exists.mp ran
  have ends : (run Listener.step (.start 9 fun _ => false) collectRun).all (fun s =>
      caller 0 ∈ s.made ∧ caller 0 ∉ s.heap) = true := by decide
  rw [ran] at ends
  obtain ⟨made, deleted⟩ := of_decide_eq_true ends
  exact ⟨s, ran, fun holders => deleted ((connection_lifetime ran made).mpr holders)⟩

/-- Once the destructor has returned, no request is accepted and the pool gets no job,
whatever the connections and the jobs that are left do. -/
theorem shutdown_refuses {more : List ListenerAction} {final : Listener}
    (ran : run Listener.step (.start nonce procs) actions = some s)
    (destroyed : s.owner = .closing []) (later : run Listener.step s more = some final) :
    (∀ fd action, final.step (.arrives fd action) = none) ∧
      final.refs.server.jobs.length = s.refs.server.jobs.length := by
  have preserved (state : Listener) (action : ListenerAction) (next : Listener)
      (kept : state.Sound ∧ state.owner = .closing [] ∧
        state.refs.server.jobs.length = s.refs.server.jobs.length)
      (taken : state.step action = some next) : next.Sound ∧ next.owner = .closing [] ∧
        next.refs.server.jobs.length = s.refs.server.jobs.length := by
    obtain ⟨sound, closing, jobs⟩ := kept
    obtain ⟨still, same⟩ := sound.destroyed_step closing taken
    exact ⟨sound.step taken, still, same.trans jobs⟩
  obtain ⟨sound, closing, jobs⟩ :=
    run_invariant preserved ⟨Listener.sound_run ran, destroyed, rfl⟩ later
  exact ⟨sound.arrives_none closing, jobs⟩

theorem shutdown_refuses_sending :
    ∃ s final, run Listener.step (.start 9 fun _ => false) (collectRun.take 6 ++
        [.destroy, .closeconn, .removed, .release]) = some s ∧
      run Listener.step s [.serves (.job 0 .send)] = some final ∧
      final.refs.server.jobs.length = s.refs.server.jobs.length := by
  have ran : (run Listener.step (.start 9 fun _ => false) (collectRun.take 6 ++
      [.destroy, .closeconn, .removed, .release] ++ [.serves (.job 0 .send)])).isSome := by decide
  obtain ⟨final, ran⟩ := Option.isSome_iff_exists.mp ran
  rw [run_append] at ran
  obtain ⟨s, first, later⟩ := Option.bind_eq_some_iff.mp ran
  have ends : (run Listener.step (.start 9 fun _ => false) (collectRun.take 6 ++
      [.destroy, .closeconn, .removed, .release])).all (fun s => s.owner = .closing []) = true := by
    decide
  rw [first] at ends
  exact ⟨s, final, first, later,
    (shutdown_refuses first (of_decide_eq_true ends) later).2⟩

end CseLab.Rpc
