import CseLab.Rpc.PollMgr

/-! What `block_remove_fd` waits for. The loop broadcasts where it holds nothing
from the sets as they were, so that a remover that has been woken knows its
descriptor to be out of the loop's hands. -/

namespace CseLab.Rpc

open Transition

variable {Thread Handler : Type*} {t : Thread} {fd : Nat} {p next : PollMgr Thread Handler}
  {action : MgrAction Thread Handler}

variable [DecidableEq Thread]

structure PollMgr.Removing (t : Thread) (fd : Nat) (p : PollMgr Thread Handler) : Prop where
  unwatched : ∀ kind, p.aio.fds kind fd = false
  within : p.removers t = .waiting fd ∨
    p.removers t = .woken fd ∧ ∀ kind, ¬ p.loop.Holds kind fd

theorem PollMgr.Takes.removing (takes : p.Takes (.blockRemoveFd t fd) next) :
    next.Removing t fd := by
  cases takes
  exact ⟨fun kind => p.aio.fds_unwatchFd_rdwr fd kind, .inl (Function.update_self _ _ _)⟩

theorem PollMgr.Takes.remover (takes : p.Takes action next) (inside : p.removers t ≠ .out)
    (stays : action ≠ .removed t) :
    next.removers t = p.removers t ∨
      p.loop = .head ∧ next.loop = .copying ∧ next.removers t = (p.removers t).wake := by
  cases takes with
  | blockRemoveFd other fd outside =>
      left
      apply Function.update_of_ne
      rintro rfl
      exact inside outside
  | removed other fd woken =>
      left
      apply Function.update_of_ne
      rintro rfl
      exact stays rfl
  | poll here =>
      cases p.pendingChange with
      | false => exact .inl rfl
      | true => exact .inr ⟨here, rfl, rfl⟩
  | _ => exact .inl rfl

theorem PollMgr.Removing.step (removing : p.Removing t fd) (others : ¬ action.AddsFd fd)
    (stays : action ≠ .removed t) (takes : p.Takes action next) : next.Removing t fd := by
  have unadded : ∀ kind, ¬ action.Adds kind fd := fun kind adds => others adds.addsFd
  refine ⟨fun kind => takes.unwatched (unadded kind) (removing.unwatched kind), ?_⟩
  rcases removing.within with waiting | ⟨woken, unheld⟩
  · rcases takes.remover (by rw [waiting]; exact Remover.noConfusion) stays with
      same | ⟨-, copying, wakes⟩
    · exact .inl (same.trans waiting)
    · right
      rw [wakes, waiting, copying]
      exact ⟨rfl, fun kind => id⟩
  · have still : next.removers t = .woken fd := by
      rcases takes.remover (by rw [woken]; exact Remover.noConfusion) stays with
        same | ⟨-, -, wakes⟩
      · exact same.trans woken
      · rw [wakes, woken]
        rfl
    exact .inr ⟨still, fun kind => takes.unheld (fun _ => removing.unwatched kind) (unheld kind)⟩

theorem PollMgr.Removing.removed (removing : p.Removing t fd)
    (takes : p.Takes (.removed t) next) (kind : Callback) : next.Quiet kind fd := by
  cases takes with
  | removed _ other woken =>
      refine ⟨removing.unwatched kind, ?_⟩
      rcases removing.within with waiting | ⟨-, unheld⟩
      · rw [waiting] at woken
        cases woken
      · exact unheld kind

variable [DecidableEq Handler]

/-- From the return of `block_remove_fd` to the next `add_callback` for the
descriptor, no callback for it is running, given that none was added during the
call: not by the thread itself nor by any other, whatever they do meanwhile with
other descriptors. -/
theorem block_remove_fd_quiet {mid after : List (MgrAction Thread Handler)}
    (ran : run PollMgr.step p (.blockRemoveFd t fd :: mid ++ .removed t :: after) = some next)
    (inside : MgrAction.removed t ∉ mid)
    (others : ∀ action ∈ mid ++ after, ¬ action.AddsFd fd) (kind : Callback) :
    ¬ next.loop.Running kind fd := by
  rw [run_append] at ran
  obtain ⟨returning, during, ending⟩ := Option.bind_eq_some_iff.mp ran
  obtain ⟨waiting, called, during⟩ := run_cons_eq_some during
  obtain ⟨returned, returns, ending⟩ := run_cons_eq_some ending
  have removing : returning.Removing t fd := by
    have allowed : Guarded PollMgr.step
        (fun _ action => ¬ action.AddsFd fd ∧ action ≠ .removed t) waiting mid :=
      Guarded.ofForall (fun action member =>
        ⟨others action (List.mem_append_left after member),
          fun same => inside (same ▸ member)⟩)
    exact allowed.invariant
      (fun p action next removing permitted taken =>
        removing.step permitted.1 permitted.2 (PollMgr.step_takes taken))
      (PollMgr.step_takes called).removing during
  have quiet : next.Quiet kind fd := by
    have allowed : Guarded PollMgr.step (fun _ action => ¬ action.AddsFd fd) returned after :=
      Guarded.ofForall (fun action member => others action (List.mem_append_right mid member))
    exact allowed.invariant
      (fun p action next quiet permitted taken =>
        quiet.step (fun adds => permitted adds.addsFd) (PollMgr.step_takes taken))
      (removing.removed (PollMgr.step_takes returns) kind) ending
  exact fun running => quiet.unheld running.holds

/-- Two removers at once, one of them for a descriptor that the loop is in a
callback for; one broadcast serves both. -/
theorem block_remove_fd_quiet_running :
    ∃ p next : PollMgr Bool Unit,
      run PollMgr.step (.start Bool Unit 3)
        [.addCallback 5 .rdonly (), .store, .addCallback 6 .rdwr (), .store, .poll, .copy,
          .select (fun fd => fd == 5) (fun fd => fd == 6), .next, .call] = some p ∧
      run PollMgr.step p
        (.blockRemoveFd true 5 ::
          [.blockRemoveFd false 6, .done, .next, .call, .done, .next, .poll, .copy] ++
          .removed true ::
          [.removed false, .select (fun _ => false) (fun _ => false), .next]) = some next ∧
      p.loop.Running .read 5 ∧ ¬ next.loop.Running .read 5 := by
  have quiet {p next : PollMgr Bool Unit} (running : p.loop.Running .read 5) (ran : _ = some next) :
      _ = some next ∧ p.loop.Running .read 5 ∧ ¬ next.loop.Running .read 5 :=
    ⟨ran, running, @block_remove_fd_quiet _ _ true 5 p next _ _
      [.blockRemoveFd false 6, .done, .next, .call, .done, .next, .poll, .copy]
      [.removed false, .select (fun _ => false) (fun _ => false), .next] ran (by simp)
      (by simp [MgrAction.AddsFd]) .read⟩
  exact ⟨_, _, rfl, quiet rfl rfl⟩

end CseLab.Rpc
