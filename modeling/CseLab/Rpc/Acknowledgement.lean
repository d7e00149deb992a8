import CseLab.Rpc.Client

/-! What a client acknowledges. The front of the window is the end of the first
gapless stretch of retired xids, and a caller that waits has not been retired. -/

namespace CseLab.Rpc

open OrderedWindow Transition

/-! ### Compressing -/

private theorem popBefore_all {it : Nat} {passed : List Nat}
    (adjacent : ∀ x ∈ passed, x + 1 = it) : popBefore it passed = [] := by
  induction passed with
  | nil => rfl
  | cons front rest ih =>
      unfold popBefore
      rw [if_pos (adjacent front List.mem_cons_self)]
      exact ih (fun x member => adjacent x (List.mem_cons_of_mem _ member))

/-- The outer loop, from a front whose successor is not among the elements
already passed: it ends at the last element of the gapless stretch. -/
private theorem compressFrom_spec {front : Nat} {passed rest : List Nat}
    (sorted : (front :: (passed ++ rest)).Pairwise (fun a b => a ≤ b))
    (gap : front + 1 ∉ passed) :
    ∃ top tail, compressFrom (front :: passed) rest = top :: tail ∧ front ≤ top ∧
      (∀ n, front < n → n ≤ top → n ∈ rest) ∧ top + 1 ∉ top :: tail ∧
      ∀ x, top < x → x ∈ passed ++ rest → x ∈ top :: tail := by
  induction rest generalizing front passed with
  | nil =>
      refine ⟨front, passed, rfl, Nat.le_refl _, ?_, ?_, ?_⟩
      · intro n after before
        omega
      · intro member
        rcases List.mem_cons.mp member with same | inside
        · omega
        · exact gap inside
      · intro x _above member
        rw [List.append_nil] at member
        exact List.mem_cons_of_mem _ member
  | cons it rest ih =>
      have ⟨least, others⟩ := List.pairwise_cons.mp sorted
      have ⟨_, afterIt, beforeIt⟩ := List.pairwise_append.mp others
      by_cases adjacent : front + 1 = it
      · -- Everything passed equals the front, so all of it leaves.
        have popped : popBefore it (front :: passed) = [] := by
          apply popBefore_all
          intro x member
          rcases List.mem_cons.mp member with rfl | inside
          · exact adjacent
          · have lower := least x (List.mem_append_left _ inside)
            have upper := beforeIt x inside it List.mem_cons_self
            have other : x ≠ front + 1 := fun same => gap (same ▸ inside)
            omega
        obtain ⟨top, tail, result, reaches, stretch, next, kept⟩ :=
          @ih it [] afterIt List.not_mem_nil
        refine ⟨top, tail, ?_, by omega, ?_, next, ?_⟩
        · unfold compressFrom
          rw [popped]
          exact result
        · intro n after before
          rcases Nat.lt_or_ge it n with later | here
          · exact List.mem_cons_of_mem _ (stretch n later before)
          · exact List.mem_cons.mpr (Or.inl (by omega))
        · intro x above member
          rcases List.mem_append.mp member with inside | ahead
          · have upper := beforeIt x inside it List.mem_cons_self
            omega
          · rcases List.mem_cons.mp ahead with same | later
            · omega
            · exact kept x above later
      · have stays : popBefore it (front :: passed) = front :: passed := by
          unfold popBefore
          exact if_neg adjacent
        have gapStays : front + 1 ∉ passed ++ [it] := by
          intro member
          rcases List.mem_append.mp member with inside | last
          · exact gap inside
          · exact adjacent (List.mem_singleton.mp last)
        have regrouped : (passed ++ [it]) ++ rest = passed ++ it :: rest := by
          rw [List.append_assoc, List.singleton_append]
        obtain ⟨top, tail, result, reaches, stretch, next, kept⟩ :=
          @ih front (passed ++ [it]) (by rwa [regrouped]) gapStays
        refine ⟨top, tail, ?_, reaches, ?_, next, ?_⟩
        · unfold compressFrom
          rw [stays]
          exact result
        · exact fun n after before => List.mem_cons_of_mem _ (stretch n after before)
        · intro x above member
          rw [regrouped] at kept
          exact kept x above member

/-! ### The window -/

structure Exact (w : XidRepWindow) (retired : List Nat) : Prop where
  reached : ∀ n, 1 ≤ n → n ≤ w.front → n ∈ retired
  gap : w.front + 1 ∉ w.xids
  above : ∀ x, w.front < x → (x ∈ w.xids ↔ x ∈ retired)

theorem Exact.start : Exact .start [] := by
  refine ⟨?_, ?_, ?_⟩
  · intro n positive below
    change n ≤ 0 at below
    omega
  · exact fun member => absurd (List.mem_singleton.mp member) (Nat.succ_ne_zero 0)
  · intro x positive
    constructor
    · intro member
      rw [List.mem_singleton.mp member] at positive
      exact absurd positive (Nat.lt_irrefl 0)
    · exact fun member => absurd member List.not_mem_nil

theorem Exact.next {w : XidRepWindow} {retired : List Nat} (exact' : Exact w retired) :
    w.front + 1 ∉ retired :=
  fun member => exact'.gap ((exact'.above _ (Nat.lt_succ_self _)).mpr member)

/-- `update_xid_rep` keeps the window exact, whichever xid is retired and
however often. -/
theorem Exact.update {w : XidRepWindow} {retired : List Nat} (exact' : Exact w retired)
    (xid : Nat) : Exact (w.update xid) (xid :: retired) := by
  unfold XidRepWindow.update
  by_cases old : xid ≤ w.front
  · rw [if_pos old]
    refine ⟨?_, exact'.gap, ?_⟩
    · exact fun n positive below => List.mem_cons_of_mem _ (exact'.reached n positive below)
    · intro x above
      rw [exact'.above x above, List.mem_cons]
      exact ⟨Or.inr, fun either => either.resolve_left (by omega)⟩
  · rw [if_neg old]
    obtain ⟨xids, nonempty, sorted⟩ := w
    cases xids with
    | nil => exact absurd rfl nonempty
    | cons front rest =>
        change ¬ xid ≤ front at old
        have inserted : insertByKey id xid (front :: rest) = front :: insertByKey id xid rest := by
          conv_lhs => unfold insertByKey
          exact if_neg (fun before : xid < front => old before.le)
        have order := insertByKey_sorted id xid sorted
        rw [inserted] at order
        obtain ⟨top, tail, result, reaches, stretch, next, kept⟩ :=
          @compressFrom_spec front [] _ order List.not_mem_nil
        have compressed : compress (insertByKey id xid (front :: rest)) = top :: tail := by
          rw [inserted]
          exact result
        have inside : ∀ x, x ∈ top :: tail → x = xid ∨ x ∈ front :: rest := by
          intro x member
          rw [← compressed] at member
          exact mem_insertByKey.mp ((compress_sublist _).subset member)
        have isRetired : ∀ x, front < x → x = xid ∨ x ∈ front :: rest → x ∈ xid :: retired := by
          intro x above either
          rcases either with same | member
          · exact List.mem_cons.mpr (Or.inl same)
          · exact List.mem_cons_of_mem _ ((exact'.above x above).mp member)
        have newFront : (compress (insertByKey id xid (front :: rest))).head
            (compress_ne_nil (List.ne_nil_of_mem (mem_insertByKey.mpr (Or.inl rfl)))) = top := by
          simp only [compressed, List.head_cons]
        refine ⟨?_, ?_, ?_⟩
        · intro n positive below
          change n ≤ List.head _ _ at below
          rw [newFront] at below
          rcases Nat.lt_or_ge front n with later | earlier
          · have member := mem_insertByKey.mp (stretch n later below)
            exact isRetired n later (member.imp_right (List.mem_cons_of_mem _))
          · exact List.mem_cons_of_mem _ (exact'.reached n positive earlier)
        · change List.head _ _ + 1 ∉ compress _
          rw [newFront, compressed]
          exact next
        · intro x above
          change List.head _ _ < x at above
          rw [newFront] at above
          change x ∈ compress _ ↔ _
          rw [compressed]
          constructor
          · exact fun member => isRetired x (by omega) (inside x member)
          · intro member
            apply kept x above
            rw [List.nil_append, mem_insertByKey]
            rcases List.mem_cons.mp member with same | before
            · exact Or.inl same
            · have present := (exact'.above x (Nat.lt_of_le_of_lt reaches above)).mpr before
              rcases List.mem_cons.mp present with first | later
              · omega
              · exact Or.inr later

/-- The front is the greatest number up to which every xid has been retired. -/
theorem Exact.isGreatest {w : XidRepWindow} {retired : List Nat} (exact' : Exact w retired) :
    IsGreatest {n | ∀ x, 1 ≤ x → x ≤ n → x ∈ retired} w.front := by
  constructor
  · exact exact'.reached
  · intro n every
    by_contra beyond
    exact exact'.next (every (w.front + 1) (Nat.succ_pos _) (not_le.mp beyond))

/-! ### The client -/

/-- The invariant of a client: callers and retired xids are among the xids
issued, and no caller that waits is retired. -/
structure Rpcc.Sound (c : Rpcc) : Prop where
  window : Exact c.xidRepWindow c.retired
  positive : 1 ≤ c.xid
  retired : ∀ x ∈ c.retired, x < c.xid
  callers : ∀ ca ∈ c.calls, 1 ≤ ca.xid ∧ ca.xid < c.xid
  waiting : ∀ ca ∈ c.calls, ca.done = false → ca.xid ∉ c.retired

theorem Rpcc.Sound.start (cltNonce : UInt32) : (Rpcc.start cltNonce).Sound where
  window := Exact.start
  positive := Nat.le_refl 1
  retired := fun _x member => absurd member List.not_mem_nil
  callers := fun _ca member => absurd member List.not_mem_nil
  waiting := fun _ca member => absurd member List.not_mem_nil

theorem Rpcc.Sound.front_lt {c : Rpcc} (sound : c.Sound) : c.xidRepWindow.front < c.xid := by
  rcases Nat.eq_zero_or_pos c.xidRepWindow.front with zero | positive
  · rw [zero]
    exact sound.positive
  · exact sound.retired _ (sound.window.reached _ positive (Nat.le_refl _))

theorem Rpcc.call1_ok {c next : Rpcc} {proc : Nat} {args : List UInt8} {request : Request}
    (called : c.call1 proc args = .ok (next, request)) :
    (proc = RpcConst.bind ↔ c.bindDone = false) ∧ c.destroyWait = false ∧
      next = { c with xid := c.xid + 1 }.addCall
        { xid := c.xid, un := [], intret := 0, done := false } ∧
      request = { xid := c.xid, proc := proc, cltNonce := c.cltNonce, srvNonce := c.srvNonce,
                  xidRep := c.xidRepWindow.front, args := args } := by
  unfold Rpcc.call1 at called
  split at called
  · cases called
  · rename_i bindOk
    split at called
    · cases called
    · rename_i notDestroyed
      cases called
      refine ⟨?_, by simpa using notDestroyed, rfl, rfl⟩
      rw [not_or, not_and, not_and, Bool.not_eq_false, Bool.not_eq_true] at bindOk
      constructor
      · exact bindOk.2
      · intro unbound
        by_contra other
        exact Bool.noConfusion (unbound.symm.trans (bindOk.1 other))

theorem Rpcc.mem_addCall {c : Rpcc} {ca other : Caller} (member : other ∈ (c.addCall ca).calls) :
    other = ca ∨ other ∈ c.calls := by
  rcases List.mem_append.mp member with kept | last
  · exact Or.inr (List.mem_of_mem_filter kept)
  · exact Or.inl (List.mem_singleton.mp last)

theorem Rpcc.Sound.call1 {c next : Rpcc} {proc : Nat} {args : List UInt8} {request : Request}
    (sound : c.Sound) (called : c.call1 proc args = .ok (next, request)) : next.Sound := by
  obtain ⟨_bind, _open, rfl, rfl⟩ := Rpcc.call1_ok called
  refine ⟨sound.window, Nat.le_succ_of_le sound.positive, ?_, ?_, ?_⟩
  · exact fun x member => Nat.lt_succ_of_lt (sound.retired x member)
  · intro ca member
    rcases Rpcc.mem_addCall member with rfl | before
    · exact ⟨sound.positive, Nat.lt_succ_self _⟩
    · have ⟨lower, upper⟩ := sound.callers ca before
      exact ⟨lower, Nat.lt_succ_of_lt upper⟩
  · intro ca member waits retired
    rcases Rpcc.mem_addCall member with rfl | before
    · exact absurd (sound.retired _ retired) (Nat.lt_irrefl _)
    · exact sound.waiting ca before waits retired

theorem Rpcc.leave_some {c next : Rpcc} {xid : Nat} {result : Int × List UInt8}
    (left : c.leave xid = some (next, result)) :
    ∃ ca ∈ c.calls, ca.xid = xid ∧ result = ca.result ∧
      next = (c.eraseCall xid).updateXidRep xid := by
  obtain ⟨ca, found, same⟩ := Option.map_eq_some_iff.mp left
  cases same
  exact ⟨ca, List.mem_of_find?_eq_some found,
    of_decide_eq_true (List.find?_some (p := fun ca : Caller => decide (ca.xid = xid)) found), rfl, rfl⟩

theorem Rpcc.mem_eraseCall {c : Rpcc} {xid : Nat} {ca : Caller}
    (member : ca ∈ (c.eraseCall xid).calls) : ca ∈ c.calls ∧ ca.xid ≠ xid := by
  have ⟨inside, other⟩ := List.mem_filter.mp member
  exact ⟨inside, of_decide_eq_true other⟩

theorem Rpcc.Sound.leave {c next : Rpcc} {xid : Nat} {result : Int × List UInt8}
    (sound : c.Sound) (left : c.leave xid = some (next, result)) : next.Sound := by
  obtain ⟨ca, member, rfl, _result, rfl⟩ := Rpcc.leave_some left
  refine ⟨sound.window.update _, sound.positive, ?_, ?_, ?_⟩
  · intro x retired
    rcases List.mem_cons.mp retired with rfl | before
    · exact (sound.callers ca member).2
    · exact sound.retired x before
  · exact fun other inside => sound.callers other (Rpcc.mem_eraseCall inside).1
  · intro other inside waits retired
    have ⟨before, different⟩ := Rpcc.mem_eraseCall inside
    rcases List.mem_cons.mp retired with same | earlier
    · exact different same
    · exact sound.waiting other before waits earlier

theorem Caller.takeIn_xid (ca : Caller) (reply : Reply) : (ca.takeIn reply).xid = ca.xid := by
  unfold Caller.takeIn
  split
  · rfl
  · rfl

theorem Caller.takeIn_waiting {ca : Caller} {reply : Reply}
    (waits : (ca.takeIn reply).done = false) : ca.done = false ∧ ca.xid ≠ reply.xid := by
  unfold Caller.takeIn at waits
  split at waits
  · cases waits
  · rename_i other
    exact ⟨waits, fun same => other ⟨same, waits⟩⟩

theorem Rpcc.Sound.gotPdu {c : Rpcc} {reply : Reply} (sound : c.Sound)
    (issued : reply.xid < c.xid) : (c.gotPdu reply).Sound := by
  refine ⟨sound.window.update _, sound.positive, ?_, ?_, ?_⟩
  · intro x retired
    rcases List.mem_cons.mp retired with rfl | before
    · exact issued
    · exact sound.retired x before
  · intro ca member
    obtain ⟨before, inside, rfl⟩ := List.mem_map.mp member
    rw [Caller.takeIn_xid]
    exact sound.callers before inside
  · intro ca member waits retired
    obtain ⟨before, inside, rfl⟩ := List.mem_map.mp member
    have ⟨waited, other⟩ := Caller.takeIn_waiting waits
    rw [Caller.takeIn_xid] at retired
    rcases List.mem_cons.mp retired with same | earlier
    · exact other same
    · exact sound.waiting before inside waited earlier

theorem Rpcc.Sound.cancel {c : Rpcc} (sound : c.Sound) : c.cancel.Sound := by
  refine ⟨sound.window, sound.positive, sound.retired, ?_, ?_⟩
  · intro ca member
    obtain ⟨before, inside, rfl⟩ := List.mem_map.mp member
    exact sound.callers before inside
  · intro ca member waits
    obtain ⟨before, inside, rfl⟩ := List.mem_map.mp member
    cases waits

theorem Rpcc.Sound.bound {c : Rpcc} (sound : c.Sound) (nonce : UInt32) : (c.bound nonce).Sound :=
  ⟨sound.window, sound.positive, sound.retired, sound.callers, sound.waiting⟩

theorem Rpcc.Sound.step {c next : Rpcc} {action : RpccAction} (sound : c.Sound)
    (taken : c.step action = some next) : next.Sound := by
  cases action with
  | call1 proc args =>
      cases taken
      cases called : c.call1 proc args with
      | error failure => exact sound
      | ok result => exact sound.call1 called
  | leave xid =>
      obtain ⟨result, left, rfl⟩ := Option.map_eq_some_iff.mp taken
      exact sound.leave left
  | gotPdu reply =>
      unfold Rpcc.step at taken
      obtain ⟨issued, same⟩ := Option.ite_none_right_eq_some.mp taken
      cases same
      exact sound.gotPdu issued.2
  | cancel =>
      cases taken
      exact sound.cancel
  | bound nonce =>
      cases taken
      exact sound.bound nonce

/-- In every run of a client, a new request acknowledges exactly the first
stretch of retired xids, which ends below its own xid and below every caller
that still waits. -/
theorem acknowledged_exactly {cltNonce : UInt32} {c next : Rpcc} {proc : Nat}
    {args : List UInt8} {request : Request}
    (reached : Reachable Rpcc.step (.start cltNonce) c)
    (called : c.call1 proc args = .ok (next, request)) :
    IsGreatest {n | ∀ x, 1 ≤ x → x ≤ n → x ∈ c.retired} request.xidRep ∧
      request.xidRep < request.xid ∧
      ∀ ca ∈ next.calls, ca.done = false → request.xidRep < ca.xid := by
  have sound : c.Sound := Reachable.invariant
    (fun _state _action _next holds taken => holds.step taken) (Rpcc.Sound.start cltNonce) reached
  have after := sound.call1 called
  obtain ⟨_bind, _open, rfl, rfl⟩ := Rpcc.call1_ok called
  refine ⟨sound.window.isGreatest, sound.front_lt, ?_⟩
  intro ca member waits
  by_contra covered
  have lower := (after.callers ca member).1
  exact after.waiting ca member waits (sound.window.reached ca.xid lower (not_lt.mp covered))

/-- After bind, with the second call answered twice and the first still waiting. -/
def sampleActions : List RpccAction :=
  [.call1 RpcConst.bind [], .gotPdu { xid := 1, ret := 0, body := [] }, .leave 1, .bound 7,
    .call1 2 [], .call1 2 [], .gotPdu { xid := 3, ret := 0, body := [] },
    .gotPdu { xid := 3, ret := 0, body := [] }]

theorem acknowledged_exactly_sample : ∃ c next request,
    Transition.run Rpcc.step (.start 5) sampleActions = some c ∧
      c.call1 2 [] = .ok (next, request) ∧ c.xidRepWindow.xids = [1, 3, 3] ∧
      IsGreatest {n | ∀ x, 1 ≤ x → x ≤ n → x ∈ c.retired} request.xidRep ∧
      request.xidRep < request.xid ∧
      ∀ ca ∈ next.calls, ca.done = false → request.xidRep < ca.xid :=
  ⟨_, _, _, rfl, rfl, rfl, @acknowledged_exactly 5 _ _ 2 [] _ ⟨sampleActions, rfl⟩ rfl⟩

end CseLab.Rpc
