import CseLab.Rpc.PoolDrain

/-! The order in which jobs leave the queue of a thread pool, and the calls of `enq`
that wait for space. With more than one worker the calls of the jobs themselves may
begin in another order. -/

namespace CseLab.Rpc

open Transition

/-- The jobs that workers have taken, first to last. -/
def ThrPool.dequeued (s : ThrPool) : List Nat := s.taken.reverse.filterMap Prod.snd

def ThrPool.queued (s : ThrPool) : List Nat := s.jobq.q.filterMap id

/-- The jobs that were accepted, first to last, are those that workers have taken and
behind them those in the queue. -/
def ThrPool.InOrder (s : ThrPool) : Prop := s.accepted.reverse = s.dequeued ++ s.queued

variable {s next : ThrPool}

theorem ThrPool.InOrder.push (order : s.InOrder) (e : PoolJob) :
    (e.toList ++ s.accepted).reverse = s.dequeued ++ (s.jobq.q ++ [e]).filterMap id := by
  rw [List.reverse_append, order, List.filterMap_append, ← List.append_assoc]
  cases e with
  | none => rfl
  | some call => rfl

theorem ThrPool.InOrder.enq (order : s.InOrder) {e : PoolJob} {blocking : Bool}
    (queued : s.Enq e blocking next) : next.InOrder := by
  cases queued with
  | quiet _ _ => exact order.push e
  | signal _ _ _ => exact order.push e
  | wait _ _ => exact order
  | refuse full returns => exact order

theorem ThrPool.InOrder.take (order : s.InOrder) {e : PoolJob} {rest : List PoolJob}
    (queue : s.jobq.q = e :: rest) (index : Nat) :
    s.accepted.reverse =
      ((index, e) :: s.taken).reverse.filterMap Prod.snd ++ rest.filterMap id := by
  have queued : s.queued = e.toList ++ rest.filterMap id := by
    unfold ThrPool.queued
    rw [queue]
    cases e with
    | none => rfl
    | some call => rfl
  rw [order, queued, List.reverse_cons, List.filterMap_append, List.append_assoc]
  cases e with
  | none => rfl
  | some call => rfl

theorem ThrPool.InOrder.step (order : s.InOrder) (stepped : s.Step next) : next.InOrder := by
  cases stepped with
  | call idle queued =>
      have before : ThrPool.InOrder { s with calls := s.calls + 1 } := order
      exact before.enq queued
  | take index _ _ _ e rest queue _ => exact order.take queue index
  | takeSignal index _ _ _ e rest queue _ _ _ => exact order.take queue index
  | retry index item waited queued =>
      have before : ThrPool.InOrder { s with retrying := s.retrying.eraseIdx index } := order
      exact before.enq queued
  | poison left poisons queued =>
      have before : ThrPool.InOrder { s with destructor := .poisoning left } := order
      exact before.enq queued
  | sleep _ _ _ _ _ | execute _ _ _ | wakeWorker _ _ | wakeEnq _ _ _ | destroy _ _ | join _ _ _ =>
      exact order

/-- Jobs are taken in the order in which they were accepted, and one is refused only by a
full queue. While the queue has room, an `enq` that waited for it has been woken, if
any waits. -/
theorem pool_in_order {n : Nat} (positive : 0 < n) {blocking : Bool}
    (reached : Reachable ThrPool.step (.start n blocking) s) :
    s.accepted.reverse = s.dequeued ++ s.queued ∧
      (∀ wakes next, s.step (.addJob wakes) = some next → next.refused ≠ s.refused →
        s.jobq.q.length = 100 * n) ∧
      (s.blocked ≠ [] → s.jobq.q.length < 100 * n → s.retrying ≠ []) := by
  have start : (ThrPool.start n blocking).InOrder := rfl
  have order : s.InOrder := reached.invariant
    (fun _state _action _next holds taken => holds.step (ThrPool.step_cases taken)) start
  obtain ⟨-, signalled, -⟩ := ThrPool.reachable positive reached
  have limit := signalled.limit
  have bound := signalled.bound
  refine ⟨order, ?_, ?_⟩
  · intro wakes next taken refused
    obtain ⟨idle, queued⟩ := Option.ite_none_right_eq_some.mp taken
    cases ThrPool.enq_cases queued with
    | quiet _ _ => exact absurd rfl refused
    | signal _ _ _ => exact absurd rfl refused
    | wait _ _ => exact absurd rfl refused
    | refuse full _ =>
        have full : s.jobq.max ≤ s.jobq.q.length := full
        omega
  · intro waits room none
    have woken := signalled.producers.resolve_left waits
    rw [none, List.length_nil] at woken
    omega

theorem pool_in_order_two :
    ∃ s, run ThrPool.step (.start 1 false) [.addJob none, .addJob none, .takeJob 0 none] = some s ∧
      s.accepted = [1, 0] ∧ [0, 1] = s.dequeued ++ s.queued := by
  have ran : (run ThrPool.step (.start 1 false)
      [.addJob none, .addJob none, .takeJob 0 none]).isSome := by decide
  obtain ⟨s, ran⟩ := Option.isSome_iff_exists.mp ran
  have shape : (run ThrPool.step (.start 1 false)
      [.addJob none, .addJob none, .takeJob 0 none]).map (fun s => s.accepted) = some [1, 0] := by
    decide
  rw [ran] at shape
  have accepted : s.accepted = [1, 0] := Option.some.inj shape
  have order := (pool_in_order Nat.one_pos ⟨_, ran⟩).1
  rw [accepted] at order
  exact ⟨s, ran, accepted, order⟩

end CseLab.Rpc
