import CseLab.Rpc.Agreement

/-! What a server forgets. A request that is new takes everything below the `xid_rep` that
it carries out of the window of its client, and none of it comes back. The entry with
that xid stays, although the call has acknowledged it too. -/

namespace CseLab.Rpc

open Slots Transition

/-- A request that was new when it was checked is in the window or behind it, and the
window has nothing below its `xid_rep`. -/
def Rpcs.Trimmed (s : Rpcs) : Prop :=
  ∀ job ∈ s.jobs, job.stat = some .new →
    s.replyWindow job.request.cltNonce ≠ [] ∧
      ∀ r ∈ s.replyWindow job.request.cltNonce, job.request.xidRep ≤ r.xid

section Server

variable {s next : Rpcs} {job after : Job} {action : JobAction}

theorem Rpcs.Trimmed.gotPdu (trimmed : s.Trimmed) (c : Conn) (request : Request) :
    Rpcs.Trimmed { s with jobs := s.jobs ++ [Job.start c request] } := by
  intro job member admitted
  rcases List.mem_append.mp member with before | last
  · exact trimmed job before admitted
  · rw [List.mem_singleton.mp last] at admitted
    cases admitted

theorem Rpcs.Once.mem_inserted_iff (once : s.Once) {r : ReplyT} :
    r ∈ inserted (s.replyWindow job.request.cltNonce) job.request ↔
      (r = ReplyT.start job.request.xid ∨ r ∈ s.replyWindow job.request.cltNonce) ∧
        job.request.xidRep ≤ r.xid :=
  mem_inserted (once.ordered job.request.cltNonce)

/-- The window of a client after a new request has nothing that an earlier one has
acknowledged: the new entry is not below the front. -/
theorem Rpcs.Trimmed.inserted (trimmed : s.Trimmed) (once : s.Once)
    (inside : ∀ front, (s.replyWindow job.request.cltNonce).head? = some front →
      front.xid ≤ job.request.xid)
    {known : Job} (earlier : known ∈ s.jobs) (admitted : known.stat = some .new)
    (client : known.request.cltNonce = job.request.cltNonce) :
    ∀ r ∈ CseLab.Rpc.inserted (s.replyWindow job.request.cltNonce) job.request,
      known.request.xidRep ≤ r.xid := by
  obtain ⟨nonempty, above⟩ := trimmed known earlier admitted
  rw [client] at nonempty above
  intro r entry
  rcases ((once.mem_inserted_iff).mp entry).1 with rfl | old
  · obtain ⟨front, rest, whole⟩ := List.exists_cons_of_ne_nil nonempty
    have first : (s.replyWindow job.request.cltNonce).head? = some front := by
      rw [whole]
      rfl
    exact Nat.le_trans (above front (List.mem_of_mem_head? first)) (inside front first)
  · exact above r old

theorem Rpcs.Trimmed.acts (trimmed : s.Trimmed) (once : s.Once) (sound : s.Sound) {index : Nat}
    (here : s.jobs[index]? = some job) (acts : s.Acts job action next after) :
    Rpcs.Trimmed { next with jobs := s.jobs.set index after } := by
  have member := List.mem_of_getElem? here
  have request := (acts.later (sound.jobs job member)).request
  intro known inside admitted
  change next.replyWindow known.request.cltNonce ≠ [] ∧
    ∀ r ∈ next.replyWindow known.request.cltNonce, known.request.xidRep ≤ r.xid
  rcases acts.window with ⟨same, stat⟩ | ⟨_unknown, front, window⟩ | ⟨window, stat⟩
  · -- no window changes, and no request becomes new but those without a duplicate check
    rw [same]
    rcases List.mem_or_eq_of_mem_set inside with before | rfl
    · exact trimmed known before admitted
    · rw [request]
      refine trimmed job member ((stat admitted).resolve_right (once.numbered job member).1)
  · -- a new request is put into the window of its client
    have own : ReplyT.start job.request.xid ∈
        CseLab.Rpc.inserted (s.replyWindow job.request.cltNonce) job.request :=
      (once.mem_inserted_iff).mpr ⟨.inl rfl, Nat.le_of_lt (once.numbered job member).2⟩
    rw [window]
    by_cases client : known.request.cltNonce = job.request.cltNonce
    · rw [client, Function.update_self]
      refine ⟨List.ne_nil_of_mem own, ?_⟩
      rcases List.mem_or_eq_of_mem_set inside with before | rfl
      · exact trimmed.inserted once front before admitted client
      · rw [request]
        exact fun r entry => ((once.mem_inserted_iff).mp entry).2
    · rw [Function.update_of_ne client]
      rcases List.mem_or_eq_of_mem_set inside with before | rfl
      · exact trimmed known before admitted
      · exact absurd (congrArg Request.cltNonce request) client
  · -- `add_reply` changes no xid
    have before : s.replyWindow known.request.cltNonce ≠ [] ∧
        ∀ r ∈ s.replyWindow known.request.cltNonce, known.request.xidRep ≤ r.xid := by
      rcases List.mem_or_eq_of_mem_set inside with old | rfl
      · exact trimmed known old admitted
      · rw [request]
        exact trimmed job member (stat ▸ admitted)
    rw [window]
    by_cases client : known.request.cltNonce = job.request.cltNonce
    · rw [client, Function.update_self]
      rw [client] at before
      refine ⟨fun empty => before.1 (List.map_eq_nil_iff.mp empty), fun r entry => ?_⟩
      obtain ⟨q, old, same⟩ := exists_xid_of_mem_addReply entry
      exact same ▸ before.2 q old
    · rw [Function.update_of_ne client]
      exact before

theorem Rpcs.Trimmed.step (trimmed : s.Trimmed) (once : s.Once) (sound : s.Sound)
    {action : RpcsAction} (taken : s.step action = some next) : next.Trimmed := by
  cases action with
  | gotPdu c request =>
      cases taken
      exact trimmed.gotPdu c request
  | job index action =>
      obtain ⟨job, shared, after, here, acts, rfl⟩ := Rpcs.step_job taken
      exact trimmed.acts once sound here acts

/-- What is below the `xid_rep` of a request is refused whenever it comes to its check. -/
theorem Rpcs.Trimmed.forgets (trimmed : s.Trimmed) {known : Job} (member : known ∈ s.jobs)
    (admitted : known.stat = some .new) {index : Nat} (here : s.jobs[index]? = some job)
    (client : job.request.cltNonce = known.request.cltNonce)
    (older : job.request.xid < known.request.xidRep)
    (taken : s.step (.job index .check) = some next) :
    next.jobs[index]? = some (job.checked .forgotten none) := by
  obtain ⟨nonempty, above⟩ := trimmed known member admitted
  rw [← client] at nonempty above
  obtain ⟨_job, shared, after, there, acts, rfl⟩ := Rpcs.step_job taken
  cases here.symm.trans there
  have answer : (s.jobs.set index after)[index]? = some after := slot_set_self here
  have unknown : ∀ r ∈ s.replyWindow job.request.cltNonce, r.xid ≠ job.request.xid :=
    fun r entry same => absurd (same ▸ above r entry) (Nat.not_le.mpr older)
  cases acts with
  | check waiting stat b rlist checked =>
      cases checked with
      | forgotten _ _ _ _ => exact answer
      | done r entry same _ => exact absurd same (unknown r entry)
      | inProgress r entry same _ => exact absurd same (unknown r entry)
      | new _ inside =>
          obtain ⟨front, rest, whole⟩ := List.exists_cons_of_ne_nil nonempty
          have first : (s.replyWindow job.request.cltNonce).head? = some front := by
            rw [whole]
            rfl
          have lower := above front (List.mem_of_mem_head? first)
          exact absurd (inside front first) (by omega)

end Server

variable {s : Network}

theorem Network.Reached.trimmed {procs : Nat → Bool}
    (reached : Reachable Network.step (.start procs) s) : ∀ m, (s.servers m).Trimmed := by
  have preserved : ∀ (s : Network) action next, s.Sound ∧ (∀ m, (s.servers m).Trimmed) →
      s.step action = some next → next.Sound ∧ ∀ m, (next.servers m).Trimmed := by
    intro s action next ⟨sound, trimmed⟩ stepped
    refine ⟨sound.step stepped, ?_⟩
    have server (m : UInt32) {action : RpcsAction} {server : Rpcs}
        (taken : (s.servers m).step action = some server) :
        ∀ other, (Function.update s.servers m server other).Trimmed :=
      (Function.forall_update_iff s.servers fun _ server => server.Trimmed).mpr
        ⟨(trimmed m).step (sound.served.once m) (sound.served.sound m) taken,
          fun other _ => trimmed other⟩
    have outcome := Network.step_cases stepped
    clear stepped
    cases outcome with
    | request m _ _ _ _ _ _ _ taken => exact server m taken
    | job m _ _ _ taken => exact server m taken
    | call _ _ _ _ _ _ _ | refused _ _ _ | leave _ _ _ _ _ _ _ | cancel _ | bind _ _ _ _
    | reply _ _ _ _ => exact trimmed
  have start : ∀ m, ((Network.start procs).servers m).Trimmed :=
    fun m job member => absurd member List.not_mem_nil
  exact (Reachable.invariant preserved ⟨Network.Sound.start procs, start⟩ reached).2

/-- Once a call has returned without failure, the instance that answered it has given
up every reply below the `xid_rep` of that call, and refuses the request of each call
below it from then on, however often a copy arrives. -/
theorem acknowledged_forgotten {procs : Nat → Bool} {r : Returned}
    (reached : Reachable Network.step (.start procs) s) (member : r ∈ s.returned)
    (valid : 0 ≤ r.ret) :
    ∃ request ∈ s.requests, request.cltNonce = r.cltNonce ∧ request.xid = r.xid ∧
      ∃ m, (request.srvNonce ≠ 0 → m = request.srvNonce) ∧
        (∃ job ∈ (s.servers m).jobs, job.request = request ∧ job.stat = some .new) ∧
        (∀ entry ∈ (s.servers m).replyWindow r.cltNonce, request.xidRep ≤ entry.xid) ∧
        ∀ index job next, (s.servers m).jobs[index]? = some job →
          job.request.cltNonce = r.cltNonce → job.request.xid < request.xidRep →
          (s.servers m).step (.job index .check) = some next →
            next.jobs[index]? = some (job.checked .forgotten none) := by
  have ⟨sound, answers⟩ := Network.Reached.sound reached
  obtain ⟨⟨request, packed, client, xid⟩, given⟩ := answers.returned r member
  obtain ⟨m, _named, known, inside, ran, own, _replied⟩ :=
    sound.origin (given valid) valid packed client xid
  have trimmed := Network.Reached.trimmed reached m
  refine ⟨request, packed, client, xid, m, ?_, ⟨known, inside, own, ran⟩, ?_, ?_⟩
  · intro bound
    rw [sound.instance inside ran (own ▸ bound), own]
  · have above := (trimmed known inside ran).2
    rw [own, client] at above
    exact above
  · intro index job next here same older taken
    refine trimmed.forgets inside ran here ?_ (own ▸ older) taken
    rw [own, client, same]

private def replayActions : List NetworkAction :=
  callActions ++ [.call 5 2 [], .request 9 0 sampleConn] ++ dispatchActions 9 2 4 [] ++
    [.reply 0, .leave 5 3, .request 9 2 sampleConn, .job 9 3 .prepare]

theorem acknowledged_forgotten_replayed :
    ∃ s, run Network.step (.start (fun proc => proc = 2)) replayActions = some s ∧
      ∃ job next, (s.servers 9).jobs[3]? = some job ∧
        (s.servers 9).step (.job 3 .check) = some next ∧
        next.jobs[3]? = some (job.checked .forgotten none) := by
  have ran : (run Network.step (.start (fun proc => proc = 2)) replayActions).isSome := by decide
  obtain ⟨s, ran⟩ := Option.isSome_iff_exists.mp ran
  have ends : (run Network.step (.start (fun proc => proc = 2)) replayActions).all (fun s =>
      { cltNonce := 5, xid := 3, ret := 4, body := [] } ∈ s.returned ∧
      (∀ request ∈ s.requests, request.xid = 3 →
        request.srvNonce = 9 ∧ request.xidRep = 2) ∧
      ((s.servers 9).step (.job 3 .check)).isSome ∧
      ((s.servers 9).jobs[3]?).any (fun job =>
        job.request.cltNonce = 5 ∧ job.request.xid = 1)) = true := by decide
  rw [ran] at ends
  obtain ⟨member, sent, taken, bind⟩ := of_decide_eq_true ends
  obtain ⟨next, taken⟩ := Option.isSome_iff_exists.mp taken
  obtain ⟨job, here, bind⟩ := (Option.any_eq_true _ _).mp bind
  replace bind := of_decide_eq_true bind
  obtain ⟨request, packed, _client, xid, m, own, _admitted, _window, refused⟩ :=
    acknowledged_forgotten ⟨replayActions, ran⟩ member (by decide)
  obtain ⟨bound, acknowledged⟩ := sent request packed xid
  rw [bound] at own
  cases own (by decide)
  exact ⟨s, ran, job, next, here, taken, refused 3 job next here bind.1 (by omega) taken⟩

end CseLab.Rpc
