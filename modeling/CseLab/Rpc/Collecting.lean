import CseLab.Rpc.Listener

/-! What points to the connections of a listening server while it accepts and collects
them: the poll manager calls none that has been deleted. -/

namespace CseLab.Rpc

open RefCount

def Listener.Removing (s : Listener) (c : Conn) : Prop :=
  (∃ index ∈ s.failing, ∃ job, s.refs.server.jobs[index]? = some job ∧ job.conn = c) ∨
    ∃ rest, s.owner = .removing c rest

def Listener.Placed (s : Listener) : Prop :=
  match s.owner with
  | .accepting | .closing _ => True
  | .scanning _ rest => rest.Sublist s.conns
  | .doomed _ c rest => (c :: rest).Sublist s.conns ∧ s.dead c = true ∧ s.refs.refno c = 1
  | .removing c _ | .closed c _ => s.dead c = true

/-- What the callbacks point to. The listener's references are given up after death. -/
structure Listener.Hooks (s : Listener) : Prop where
  released : ∀ c ∈ s.made, c ∉ s.held → s.dead c = true
  callbacks : Filed s.callbacks s.channo fun c => c ∈ s.made ∧ (s.dead c = true → s.Removing c)
  failing : ∀ index ∈ s.failing,
    ∃ job, s.refs.server.jobs[index]? = some job ∧ job.phase = .sending
  placed : s.Placed

structure Listener.Sound (s : Listener) : Prop extends Listener.Accounts s, Listener.Hooks s

theorem Listener.Sound.start (nonce : UInt32) (procs : Nat → Bool) :
    (Listener.start nonce procs).Sound := by
  refine ⟨.start nonce procs, ?_, ?_, ?_, trivial⟩
  · exact fun c made => absurd made List.not_mem_nil
  · intro fd c registered
    cases registered
  · exact fun index waits => absurd waits List.not_mem_nil

section Sound

variable {s next : Listener} {c : Conn}

theorem Listener.Sound.held_live (sound : s.Sound) (held : c ∈ s.held) : c ∈ s.heap :=
  (sound.heap_iff (sound.made c held)).mpr (.inl held)

theorem Listener.Sound.pointed_live (sound : s.Sound) (points : s.refs.PointsTo c) :
    c ∈ s.heap :=
  (sound.heap_iff (sound.pointed c points)).mpr (.inr (.inl points))

theorem Listener.Sound.registered_live (sound : s.Sound) :
    Filed s.callbacks s.channo (· ∈ s.heap) := by
  refine sound.callbacks.mono fun c registered => ?_
  obtain ⟨made, removing⟩ := registered
  by_cases held : c ∈ s.held
  · exact sound.held_live held
  · rcases removing (sound.released c made held) with ⟨index, waits, job, here, same⟩ | ⟨rest, here⟩
    · obtain ⟨waiting, there, sending⟩ := sound.failing index waits
      cases Option.some.inj (here.symm.trans there)
      refine sound.pointed_live (.inl ⟨job, List.mem_of_getElem? here, same, ?_⟩)
      rw [sending]
      exact Phase.noConfusion
    · refine absurd ?_ held
      unfold Listener.held
      rw [here]
      exact List.mem_cons_self

theorem Listener.Sound.accept (sound : s.Sound) {fd : Nat} {ch : Conn}
    (taken : s.step (.accept fd ch) = some next) : next.Sound := by
  simp only [Listener.step] at taken
  split at taken
  · rename_i here
    split at taken
    · rename_i guard
      cases taken
      obtain ⟨fresh, closed, -⟩ := guard
      have held : s.held = s.conns := by rw [Listener.held, here]; rfl
      have unheld : ch ∉ s.conns := fun member => fresh (sound.made ch (held ▸ member))
      have unspent : spent (ch :: s.made) (ch :: s.conns) = spent s.made s.held := by
        rw [held]
        funext c
        by_cases new : c = ch
        · simp [spent, new, fresh]
        · simp [spent, new]
      have old {c : Conn} (made : c ∈ s.made) : c ≠ ch := fun new => fresh (new ▸ made)
      have counted : s.full.Counted := sound.counted
      refine ⟨⟨?_, ?_, ?_, ?_, ?_, ?_⟩, ?_, ?_, sound.failing, List.Sublist.refl _⟩
      · change (s.refs.plus (spent (ch :: s.made) (ch :: s.conns))).Counted
        exact unspent ▸ counted
      · intro c
        change c ∈ ch :: s.heap ↔ c ∈ ch :: s.made ∧ 0 < s.refs.refno c
        rw [List.mem_cons, List.mem_cons, sound.live c]
        by_cases new : c = ch
        · have total := counted.refno c
          have zero : spent s.made s.held c = 0 := if_neg fun gone => old gone.1 new
          rw [Listener.full_refno, zero] at total
          exact ⟨fun _ => ⟨.inl new, by omega⟩, fun _ => .inl new⟩
        · simp only [new, false_or]
      · intro c member
        rcases List.mem_cons.mp member with rfl | before
        · exact List.mem_cons_self
        · exact List.mem_cons_of_mem _ (sound.made c (held ▸ before))
      · exact List.nodup_cons.mpr ⟨unheld, held ▸ sound.nodup⟩
      · exact fun c points => List.mem_cons_of_mem _ (sound.pointed c points)
      · exact sound.distinct.cons (fun live => fresh ((sound.live ch).mp live).1) closed
      · intro c made gone
        obtain ⟨new, unheld⟩ := not_or.mp fun either => gone (List.mem_cons.mpr either)
        have made := (List.mem_cons.mp made).resolve_left new
        exact (Function.update_of_ne new _ _).trans (sound.released c made (held ▸ unheld))
      · refine sound.callbacks.file fd (fun c registered => old registered.1) ?_ ?_
        · rintro c ⟨made, removing⟩
          refine ⟨List.mem_cons_of_mem _ made, fun dead => ?_⟩
          refine (removing ((Function.update_of_ne (old made) _ _).symm.trans dead)).imp id ?_
          rintro ⟨rest, there⟩
          exact absurd (here.symm.trans there) Owner.noConfusion
        · refine ⟨List.mem_cons_self, fun dead => ?_⟩
          exact Bool.noConfusion ((Function.update_self ch false s.dead).symm.trans dead)
    · cases taken
  · cases taken

theorem Listener.Sound.moves (sound : s.Sound) {conns : List Conn} {owner : Owner}
    (held : (owner.held conns).Perm s.held) (stays : ∀ c rest, s.owner ≠ .removing c rest)
    (placed : Listener.Placed { s with conns := conns, owner := owner }) :
    Listener.Sound { s with conns := conns, owner := owner } := by
  refine ⟨sound.toAccounts.kept rfl rfl rfl rfl held, ?_, ?_, sound.failing, placed⟩
  · exact fun c made gone => sound.released c made fun before => gone (held.mem_iff.mpr before)
  · refine sound.callbacks.mono fun c registered => registered.imp_right fun removing dead => ?_
    exact (removing dead).imp id fun ⟨rest, here⟩ => absurd here (stays c rest)

theorem Listener.Sound.gives (sound : s.Sound) {conns : List Conn} {owner : Owner}
    (dead : s.dead c = true) (given : s.held.Perm (c :: owner.held conns))
    (stays : ∀ c rest, s.owner ≠ .removing c rest)
    (placed : Listener.Placed { s.decref c with conns := conns, owner := owner }) :
    Listener.Sound { s.decref c with conns := conns, owner := owner } := by
  refine ⟨sound.toAccounts.drops dead rfl rfl rfl rfl given, ?_, ?_, sound.failing, placed⟩
  · intro d made gone
    by_cases same : d = c
    · exact same ▸ dead
    · refine sound.released d made fun before => ?_
      exact (List.mem_cons.mp (given.mem_iff.mp before)).elim same gone
  · refine sound.callbacks.mono fun d registered => registered.imp_right fun removing dead => ?_
    exact (removing dead).imp id fun ⟨rest, here⟩ => absurd here (stays d rest)

theorem Listener.Sound.placed_at (sound : s.Sound) {owner : Owner} (here : s.owner = owner) :
    Listener.Placed { s with owner := owner } := by
  subst here
  exact sound.placed

theorem Listener.held_at {owner : Owner} (here : s.owner = owner) :
    s.held = owner.held s.conns := by
  rw [Listener.held, here]

theorem Listener.Sound.ahead_held (sound : s.Sound) : s.owner.ahead.Sublist s.held := by
  have placed {owner : Owner} (here : s.owner = owner) := sound.placed_at here
  unfold Listener.held
  cases here : s.owner with
  | accepting => exact List.nil_sublist _
  | scanning ch rest => exact (placed here).cons ch
  | doomed ch c rest => exact (placed here).1.cons ch
  | closing rest => exact .refl rest
  | removing c rest | closed c rest => exact .refl (c :: rest)

theorem Listener.Sound.scan (sound : s.Sound) (taken : s.step .scan = some next) : next.Sound := by
  simp only [Listener.step] at taken
  split at taken
  · rename_i ch c rest here
    have placed : (c :: rest).Sublist s.conns := sound.placed_at here
    have stays (c rest) : s.owner ≠ .removing c rest := by
      rw [here]
      exact Owner.noConfusion
    have held : s.held = ch :: s.conns := Listener.held_at here
    split at taken
    · rename_i idle
      cases taken
      exact sound.moves (held ▸ .refl _) stays ⟨placed, idle⟩
    · cases taken
      exact sound.moves (held ▸ .refl _) stays (List.sublist_of_cons_sublist placed)
  · cases taken

theorem Listener.Sound.collect (sound : s.Sound) (taken : s.step .collect = some next) :
    next.Sound := by
  simp only [Listener.step] at taken
  split at taken
  · rename_i ch c rest here
    cases taken
    obtain ⟨entries, dead, -⟩ : (c :: rest).Sublist s.conns ∧ s.dead c = true ∧
        s.refs.refno c = 1 := sound.placed_at here
    have held : s.held = ch :: s.conns := Listener.held_at here
    have entry : c ∈ s.conns := entries.subset List.mem_cons_self
    refine sound.gives dead ?_ ?_ ?_
    · rw [held]
      exact ((List.perm_cons_erase entry).cons ch).trans (.swap ..)
    · rw [here]
      exact fun _ _ => Owner.noConfusion
    · have fewer := entries.erase c
      rw [List.erase_cons_head] at fewer
      exact fewer
  · cases taken

/-- The new descriptor is not one of those that `conns_` has. -/
theorem Listener.Sound.unregistered (sound : s.Sound) {ch : Conn} {rest : List Conn}
    (here : s.owner = .scanning ch rest) : ∀ c ∈ s.conns, s.channo c ≠ s.channo ch := by
  have held : s.held = ch :: s.conns := Listener.held_at here
  have nodup := List.nodup_cons.mp (held ▸ sound.nodup)
  intro c entry same
  have live : c ∈ s.heap := sound.held_live (held ▸ List.mem_cons_of_mem ch entry)
  have new : ch ∈ s.heap := sound.held_live (held ▸ List.mem_cons_self)
  exact nodup.1 (sound.distinct c live ch new same ▸ entry)

theorem Listener.Sound.insert (sound : s.Sound) (taken : s.step .insert = some next) :
    next.Sound := by
  simp only [Listener.step] at taken
  split at taken
  · rename_i ch here
    cases taken
    have held : s.held = ch :: s.conns := Listener.held_at here
    have kept : (s.conns.filter fun c => decide (s.channo c ≠ s.channo ch)) = s.conns :=
      List.filter_eq_self.mpr fun c entry => decide_eq_true (sound.unregistered here c entry)
    rw [kept]
    refine sound.moves ?_ ?_ trivial
    · rw [held]
      exact List.perm_orderedInsert ..
    · rw [here]
      exact fun _ _ => Owner.noConfusion
  · cases taken

theorem Listener.Placed.dies (placed : s.Placed) (d : Conn) :
    Listener.Placed { s with dead := Function.update s.dead d true } := by
  unfold Listener.Placed at placed ⊢
  dsimp only
  split
  · trivial
  · trivial
  · rename_i here
    rw [here] at placed
    exact placed
  · rename_i here
    rw [here] at placed
    exact ⟨placed.1, still_dead d placed.2.1, placed.2.2⟩
  · rename_i here
    rw [here] at placed
    exact still_dead d placed
  · rename_i here
    rw [here] at placed
    exact still_dead d placed

theorem Listener.Sound.broken (sound : s.Sound) {fd : Nat}
    (taken : s.step (.broken fd) = some next) : next.Sound := by
  simp only [Listener.step] at taken
  split at taken
  · rename_i c here
    split at taken
    · cases taken
    · cases taken
      refine ⟨sound.toAccounts.kept rfl rfl rfl rfl (.refl _), ?_, ?_, sound.failing,
        sound.placed.dies c⟩
      · exact fun d made gone => still_dead c (sound.released d made gone)
      · refine sound.callbacks.clear fd fun d other registered =>
          registered.imp_right fun removing dead => removing ?_
        have apart : d ≠ c := fun same => other (same ▸ (sound.callbacks fd c here).1)
        exact (Function.update_of_ne apart _ _).symm.trans dead
  · cases taken

theorem Listener.Sound.sendFails (sound : s.Sound) {index : Nat}
    (taken : s.step (.sendFails index) = some next) : next.Sound := by
  simp only [Listener.step] at taken
  split at taken
  · rename_i job here
    split at taken
    · rename_i guard
      cases taken
      refine ⟨sound.toAccounts.kept rfl rfl rfl rfl (.refl _), ?_, ?_, ?_,
        sound.placed.dies job.conn⟩
      · exact fun d made gone => still_dead job.conn (sound.released d made gone)
      · refine sound.callbacks.mono fun d registered =>
          registered.imp_right fun removing dead => ?_
        by_cases same : d = job.conn
        · exact .inl ⟨index, List.mem_cons_self, job, here, same.symm⟩
        · refine (removing ((Function.update_of_ne same _ _).symm.trans dead)).imp_left ?_
          exact fun ⟨other, waits, rest⟩ => ⟨other, List.mem_cons_of_mem _ waits, rest⟩
      · intro other waits
        rcases List.mem_cons.mp waits with rfl | before
        · exact ⟨job, here, guard.1⟩
        · exact sound.failing other before
    · cases taken
  · cases taken

theorem Listener.Sound.sendRemoved (sound : s.Sound) {index : Nat}
    (taken : s.step (.sendRemoved index) = some next) : next.Sound := by
  simp only [Listener.step] at taken
  split at taken
  · rename_i job here
    split at taken
    · cases taken
      refine ⟨sound.toAccounts.kept rfl rfl rfl rfl (.refl _), sound.released, ?_, ?_,
        sound.placed⟩
      · refine sound.callbacks.clear (s.channo job.conn) fun d different registered =>
          registered.imp_right fun removing dead => (removing dead).imp_left ?_
        rintro ⟨other, waits, waiting, there, conn⟩
        have apart : other ≠ index := by
          rintro rfl
          cases Option.some.inj (here.symm.trans there)
          exact different (congrArg s.channo conn.symm)
        exact ⟨other, (List.mem_erase_of_ne apart).mpr waits, waiting, there, conn⟩
      · exact fun other waits => sound.failing other (List.mem_of_mem_erase waits)
    · cases taken
  · cases taken

theorem Listener.Sound.recounts (sound : s.Sound) {action : RefAction} {refs : RefServer}
    (taken : s.refs.step action = some refs)
    (arrival : ∀ c, action.arrives = some c → c ∈ s.made ∧ s.dead c = false)
    (waits : ∀ index ∈ s.failing, action ≠ .job index .send) : (s.recounted refs).Sound := by
  refine ⟨sound.toAccounts.serves sound.released taken arrival, sound.released, ?_, ?_, ?_⟩
  · refine sound.callbacks.mono fun d registered =>
      registered.imp_right fun removing dead => (removing dead).imp_left ?_
    rintro ⟨index, waiting, job, here, conn⟩
    obtain ⟨sender, there, sending⟩ := sound.failing index waiting
    cases Option.some.inj (here.symm.trans there)
    exact ⟨index, waiting, job, RefServer.step_sending taken here sending (waits index waiting),
      conn⟩
  · intro index waiting
    obtain ⟨job, here, sending⟩ := sound.failing index waiting
    exact ⟨job, RefServer.step_sending taken here sending (waits index waiting), sending⟩
  · have placed := sound.placed
    unfold Listener.Placed at placed ⊢
    change match s.owner with
      | .accepting | .closing _ => True
      | .scanning _ rest => rest.Sublist s.conns
      | .doomed _ c rest => (c :: rest).Sublist s.conns ∧ s.dead c = true ∧ refs.refno c = 1
      | .removing c _ | .closed c _ => s.dead c = true
    split at placed <;> try exact placed
    rename_i ch c rest here
    obtain ⟨entries, dead, last⟩ := placed
    -- nothing points to a connection that is about to be collected
    have held : c ∈ s.held := by
      rw [Listener.held_at here]
      exact List.mem_cons_of_mem ch (entries.subset List.mem_cons_self)
    have unspent : spent s.made s.held c = 0 := if_neg fun gone => gone.2 held
    have counted : s.full.Counted := sound.counted
    have unpointed : ¬s.refs.PointsTo c :=
      counted.unpointed (c := c) (by rw [Listener.full_refno, unspent]; omega)
    have elsewhere : action.arrives ≠ some c := by
      intro arrives
      have alive := (arrival c arrives).2
      rw [dead] at alive
      exact Bool.noConfusion alive
    exact ⟨entries, dead, (RefServer.refno_step taken unpointed elsewhere).trans last⟩

theorem Listener.Sound.arrives (sound : s.Sound) {fd : Nat} {action : RefAction}
    (taken : s.step (.arrives fd action) = some next) : next.Sound := by
  simp only [Listener.step] at taken
  split at taken
  · rename_i c here
    split at taken
    · rename_i guard
      obtain ⟨refs, served, rfl⟩ := Option.map_eq_some_iff.mp taken
      refine sound.recounts served ?_ ?_
      · intro d there
        cases Option.some.inj (here.symm.trans there)
        exact ⟨(sound.callbacks fd c guard.1).2.1, guard.2⟩
      · rintro index - rfl
        cases here
    · cases taken
  · cases taken

theorem Listener.Sound.serving (sound : s.Sound) {action : RefAction}
    (taken : s.step (.serves action) = some next) : next.Sound := by
  simp only [Listener.step] at taken
  split at taken
  · rename_i guard
    obtain ⟨refs, served, rfl⟩ := Option.map_eq_some_iff.mp taken
    refine sound.recounts served ?_ ?_
    · intro c arrives
      rw [guard.1] at arrives
      cases arrives
    · rintro index waiting rfl
      have free := guard.2
      simp [Listener.permits, waiting] at free
  · cases taken

end Sound

end CseLab.Rpc
