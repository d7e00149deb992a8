import CseLab.Rpc.References

/-! What points to a connection of a server, and what a step of the server makes of
the counts of the others. -/

namespace CseLab.Rpc

open Counting

/-- A job that has not ended, a short request or an entry of `conns_` points to it. -/
def RefServer.PointsTo (s : RefServer) (c : Conn) : Prop :=
  (∃ job ∈ s.server.jobs, job.conn = c ∧ job.phase ≠ .finished) ∨ c ∈ s.shorts ∨
    ∃ n, s.server.conns n = some c

def RefAction.arrives : RefAction → Option Conn
  | .gotPdu c _ | .gotShort c | .refused c => some c
  | .job _ _ | .dropShort _ => none

theorem RefServer.Counted.unpointed {s : RefServer} (counted : s.Counted) {c : Conn}
    (reclaimed : s.refno c ≤ 1) : ¬s.PointsTo c := by
  obtain ⟨jobs, shorts, entries⟩ := counted.held reclaimed
  rintro (⟨job, member, same, unfinished⟩ | short | ⟨n, entry⟩)
  · exact unfinished (jobs job member same)
  · exact shorts short
  · exact entries n entry

section Job

variable {s next : Rpcs} {job after : Job} {action : JobAction} {c : Conn}

theorem Rpcs.Acts.started (acts : s.Acts job action next after) : job.phase ≠ .finished := by
  cases acts with
  | oldServer here _ _ | direct here _ _ | prepare here _ _ | check here _ _ _ _
  | handle here _ _ _ _ | record here | keep here _ _ | reroute here _ _ | send here =>
      rw [here]
      exact Phase.noConfusion

theorem Rpcs.Acts.points (acts : s.Acts job action next after)
    (points : (after.conn = c ∧ after.phase ≠ .finished) ∨ ∃ n, next.conns n = some c) :
    (job.conn = c ∧ job.phase ≠ .finished) ∨ ∃ n, s.conns n = some c := by
  have started := acts.started
  cases acts with
  | prepare queued accepted named =>
      rcases points with ⟨same, -⟩ | ⟨n, entry⟩
      · exact .inl ⟨same, started⟩
      · dsimp only at entry
        by_cases here : n = job.request.cltNonce
        · rw [here, Function.update_self] at entry
          have latest := Option.some.inj entry
          unfold latestConn at latest
          split at latest
          · exact .inl ⟨latest, started⟩
          · rename_i old known
            split at latest
            · exact .inl ⟨latest, started⟩
            · exact .inr ⟨job.request.cltNonce, latest ▸ known⟩
        · rw [Function.update_of_ne here] at entry
          exact .inr ⟨n, entry⟩
  | check admitted stat b rlist checked =>
      have same : (job.checked stat b).conn = job.conn := by cases stat <;> rfl
      rw [same] at points
      exact points.imp_left fun here => ⟨here.1, started⟩
  | reroute recorded d latest =>
      rcases points with ⟨same, -⟩ | entry
      · exact .inr ⟨_, latest.trans (congrArg some same)⟩
      · exact .inr entry
  | send sending => exact points.imp_left fun here => absurd rfl here.2
  | oldServer _ _ _ | direct _ _ _ | handle _ _ _ _ _ | record _ | keep _ _ _ =>
      exact points.imp_left fun here => ⟨here.1, started⟩

theorem Rpcs.Acts.recount_other (acts : s.Acts job action next after) (refno : Conn → Int)
    (apart : job.conn ≠ c) (unknown : ∀ n, s.conns n ≠ some c) :
    s.recount job after refno action c = refno c := by
  cases acts with
  | oldServer queued old other =>
      unfold Rpcs.recount
      dsimp only
      rw [if_pos ⟨old, other⟩]
  | direct queued accepted anonymous =>
      unfold Rpcs.recount
      dsimp only
      rw [if_neg (Request.not_forOldServer accepted), if_pos anonymous]
  | prepare queued accepted named =>
      unfold Rpcs.recount
      dsimp only
      rw [if_neg (Request.not_forOldServer accepted), if_neg named]
      cases known : s.conns job.request.cltNonce with
      | none =>
          change incref refno job.conn c = _
          rw [incref_apply, if_neg apart, Int.add_zero]
      | some old =>
          have other : old ≠ c := fun same => unknown _ (same ▸ known)
          dsimp only
          by_cases newer : old.compare job.conn < 0
          · rw [if_pos newer, incref_apply, decref_apply, if_neg apart, if_neg other,
              Int.sub_zero, Int.add_zero]
          · rw [if_neg newer]
  | check admitted stat b rlist checked =>
      unfold Rpcs.recount
      dsimp only
      by_cases same : (job.checked stat b).stat = some .inProgress
      · rw [if_pos same, decref_apply, if_neg apart, Int.sub_zero]
      · rw [if_neg same]
  | handle _ _ _ _ _ | record _ => rfl
  | keep recorded isdead good =>
      have stays : ¬(isdead = true ∧ some job.conn ≠ s.conns job.request.cltNonce) :=
        fun stale => stale.2 (good stale.1).symm
      simp only [Rpcs.recount, if_neg stays]
  | reroute recorded d latest =>
      have other : d ≠ c := fun same => unknown _ (same ▸ latest)
      unfold Rpcs.recount
      dsimp only
      by_cases stale : true = true ∧ some job.conn ≠ s.conns job.request.cltNonce
      · rw [if_pos stale, incref_apply, decref_apply, if_neg apart, if_neg other, Int.sub_zero,
          Int.add_zero]
      · rw [if_neg stale]
  | send sending =>
      unfold Rpcs.recount
      dsimp only
      by_cases old : job.request.ForOldServer s.nonce
      · rw [if_pos old]
      · rw [if_neg old, decref_apply, if_neg apart, Int.sub_zero]

theorem incref_add (refno extra : Conn → Int) (c : Conn) :
    incref (fun d => refno d + extra d) c = fun d => incref refno c d + extra d := by
  funext d
  rw [incref_apply, incref_apply]
  omega

theorem decref_add (refno extra : Conn → Int) (c : Conn) :
    decref (fun d => refno d + extra d) c = fun d => decref refno c d + extra d := by
  funext d
  rw [decref_apply, decref_apply]
  omega

theorem Rpcs.recount_add (s : Rpcs) (job after : Job) (refno extra : Conn → Int)
    (action : JobAction) :
    s.recount job after (fun d => refno d + extra d) action =
      fun d => s.recount job after refno action d + extra d := by
  unfold Rpcs.recount
  cases action with
  | prepare =>
      dsimp only
      cases known : s.conns job.request.cltNonce with
      | none =>
          dsimp only
          rw [incref_add]
          split_ifs <;> rfl
      | some old =>
          dsimp only
          rw [decref_add, incref_add]
          split_ifs <;> rfl
  | check =>
      dsimp only
      rw [decref_add]
      split_ifs <;> rfl
  | handle ret body => rfl
  | record => rfl
  | choose isdead =>
      dsimp only
      rw [decref_add, incref_add]
      split_ifs <;> rfl
  | send =>
      dsimp only
      rw [decref_add]
      split_ifs <;> rfl

end Job

section Step

variable {s next : RefServer} {action : RefAction} {c : Conn}

theorem RefServer.points_step (taken : s.step action = some next) (points : next.PointsTo c) :
    s.PointsTo c ∨ action.arrives = some c := by
  cases action with
  | gotPdu d request =>
      cases taken
      rcases points with ⟨job, member, same, unfinished⟩ | short | entry
      · rcases List.mem_append.mp member with before | last
        · exact .inl (.inl ⟨job, before, same, unfinished⟩)
        · rw [List.mem_singleton.mp last] at same
          exact .inr (congrArg some same)
      · exact .inl (.inr (.inl short))
      · exact .inl (.inr (.inr entry))
  | gotShort d =>
      cases taken
      rcases points with job | short | entry
      · exact .inl (.inl job)
      · rcases List.mem_append.mp short with before | last
        · exact .inl (.inr (.inl before))
        · exact .inr (congrArg some (List.mem_singleton.mp last).symm)
      · exact .inl (.inr (.inr entry))
  | refused d =>
      cases taken
      exact .inl points
  | job index action =>
      obtain ⟨job, here, rest⟩ := Option.bind_eq_some_iff.mp taken
      obtain ⟨⟨shared, after⟩, acted, rfl⟩ := Option.map_eq_some_iff.mp rest
      have acts := Rpcs.act_cases acted
      have member := List.mem_of_getElem? here
      have before (points : (job.conn = c ∧ job.phase ≠ .finished) ∨
          ∃ n, s.server.conns n = some c) : s.PointsTo c :=
        points.elim (fun own => .inl ⟨job, member, own⟩) (fun entry => .inr (.inr entry))
      left
      rcases points with ⟨later, inside, points⟩ | short | entry
      · rcases List.mem_or_eq_of_mem_set inside with old | rfl
        · exact .inl ⟨later, old, points⟩
        · exact before (acts.points (.inl points))
      · exact .inr (.inl short)
      · exact before (acts.points (.inr entry))
  | dropShort index =>
      obtain ⟨d, here, rfl⟩ := Option.map_eq_some_iff.mp taken
      rcases points with job | short | entry
      · exact .inl (.inl job)
      · exact .inl (.inr (.inl (List.mem_of_mem_eraseIdx short)))
      · exact .inl (.inr (.inr entry))

theorem RefServer.refno_step (taken : s.step action = some next) (unpointed : ¬s.PointsTo c)
    (elsewhere : action.arrives ≠ some c) : next.refno c = s.refno c := by
  cases action with
  | gotPdu d request =>
      cases taken
      change incref s.refno d c = _
      rw [incref_apply, if_neg (fun same => elsewhere (congrArg some same)), Int.add_zero]
  | gotShort d =>
      cases taken
      change incref s.refno d c = _
      rw [incref_apply, if_neg (fun same => elsewhere (congrArg some same)), Int.add_zero]
  | refused d =>
      cases taken
      change decref (incref s.refno d) d c = _
      rw [decref_apply, incref_apply]
      omega
  | job index action =>
      obtain ⟨job, here, rest⟩ := Option.bind_eq_some_iff.mp taken
      obtain ⟨⟨shared, after⟩, acted, rfl⟩ := Option.map_eq_some_iff.mp rest
      have acts := Rpcs.act_cases acted
      refine acts.recount_other s.refno ?_ (fun n entry => unpointed (.inr (.inr ⟨n, entry⟩)))
      exact fun same => unpointed (.inl ⟨job, List.mem_of_getElem? here, same, acts.started⟩)
  | dropShort index =>
      obtain ⟨d, here, rfl⟩ := Option.map_eq_some_iff.mp taken
      have other : d ≠ c := fun same => unpointed (.inr (.inl (same ▸ List.mem_of_getElem? here)))
      change decref s.refno d c = _
      rw [decref_apply, if_neg other, Int.sub_zero]

/-- A job in `send` stays where it is until `send` returns. -/
theorem RefServer.step_sending (taken : s.step action = some next) {index : Nat} {job : Job}
    (here : s.server.jobs[index]? = some job) (sending : job.phase = .sending)
    (waits : action ≠ .job index .send) : next.server.jobs[index]? = some job := by
  cases action with
  | gotPdu d request =>
      cases taken
      exact (List.getElem?_append_left (List.getElem?_eq_some_iff.mp here).1).trans here
  | gotShort d =>
      cases taken
      exact here
  | refused d =>
      cases taken
      exact here
  | job other action =>
      obtain ⟨acting, there, rest⟩ := Option.bind_eq_some_iff.mp taken
      obtain ⟨⟨shared, after⟩, acted, rfl⟩ := Option.map_eq_some_iff.mp rest
      change (s.server.jobs.set other after)[index]? = some job
      by_cases same : other = index
      · subst same
        cases Option.some.inj (here.symm.trans there)
        have acts := Rpcs.act_cases acted
        cases acts with
        | send _ => exact absurd rfl waits
        | oldServer other _ _ | direct other _ _ | prepare other _ _ | check other _ _ _ _
        | handle other _ _ _ _ | record other | keep other _ _ | reroute other _ _ =>
            exact Phase.noConfusion (other.symm.trans sending)
      · rw [List.getElem?_set_ne same]
        exact here
  | dropShort other =>
      obtain ⟨d, there, rfl⟩ := Option.map_eq_some_iff.mp taken
      exact here

/-- The server with references besides those that it counts. -/
def RefServer.plus (s : RefServer) (extra : Conn → Int) : RefServer :=
  { s with refno := fun c => s.refno c + extra c }

theorem RefServer.step_plus (taken : s.step action = some next) (extra : Conn → Int) :
    (s.plus extra).step action = some (next.plus extra) := by
  cases action with
  | gotPdu d request =>
      cases taken
      change some _ = some _
      rw [RefServer.plus, incref_add]
      rfl
  | gotShort d =>
      cases taken
      change some _ = some _
      rw [RefServer.plus, incref_add]
      rfl
  | refused d =>
      cases taken
      change some _ = some _
      rw [RefServer.plus, incref_add, decref_add]
      rfl
  | job index action =>
      obtain ⟨job, here, rest⟩ := Option.bind_eq_some_iff.mp taken
      obtain ⟨⟨shared, after⟩, acted, rfl⟩ := Option.map_eq_some_iff.mp rest
      change (s.server.jobs[index]?).bind _ = _
      rw [here, Option.bind_some]
      change (s.server.act job action).map _ = _
      rw [acted, Option.map_some]
      exact congrArg (fun refno => some (RefServer.mk _ _ refno))
        (s.server.recount_add job after s.refno extra action)
  | dropShort index =>
      obtain ⟨d, here, rfl⟩ := Option.map_eq_some_iff.mp taken
      change (s.shorts[index]?).map _ = _
      rw [here, Option.map_some]
      exact congrArg (fun refno => some (RefServer.mk _ _ refno)) (decref_add s.refno extra d)

end Step

end CseLab.Rpc
