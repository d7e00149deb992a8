import CseLab.Rpc.Dispatch

/-! The handler is called at most once for a request. Everything that it was
called for is in the window or below its front, and the front only moves up. -/

namespace CseLab.Rpc

open BigEndian OrderedWindow Slots Transition

def RpcsAction.Numbered : RpcsAction → Prop
  | .gotPdu _ request => request.cltNonce ≠ 0 ∧ request.xidRep < request.xid
  | .job _ _ => True

instance (action : RpcsAction) : Decidable action.Numbered := by
  cases action <;> unfold RpcsAction.Numbered <;> infer_instance

/-! ### Once -/

variable {s next : Rpcs} {job after : Job} {action : JobAction}

def inserted (rlist : List ReplyT) (request : Request) : List ReplyT :=
  (insertByKey ReplyT.xid (ReplyT.start request.xid) rlist).dropWhile
    (fun r => decide (r.xid < request.xidRep))

theorem Rpcs.Acts.window (acts : s.Acts job action next after) :
    (next.replyWindow = s.replyWindow ∧
        (after.stat = some .new → job.stat = some .new ∨ job.request.cltNonce = 0)) ∨
      ((∀ r ∈ s.replyWindow job.request.cltNonce, r.xid ≠ job.request.xid) ∧
        (∀ front, (s.replyWindow job.request.cltNonce).head? = some front →
          front.xid ≤ job.request.xid) ∧
        next.replyWindow = Function.update s.replyWindow job.request.cltNonce
          (inserted (s.replyWindow job.request.cltNonce) job.request)) ∨
      (next.replyWindow = Function.update s.replyWindow job.request.cltNonce
          (addReply (s.replyWindow job.request.cltNonce) job.request.xid job.reply) ∧
        after.stat = job.stat) := by
  cases acts with
  | check admitted stat b rlist checked =>
      cases checked with
      | new unknown inside => exact Or.inr (Or.inl ⟨unknown, inside, rfl⟩)
      | done _ _ _ _ =>
          exact Or.inl ⟨Function.update_eq_self _ _, fun stat => nomatch stat⟩
      | inProgress _ _ _ _ =>
          exact Or.inl ⟨Function.update_eq_self _ _, fun stat => nomatch stat⟩
      | forgotten _ _ _ _ =>
          exact Or.inl ⟨Function.update_eq_self _ _, fun stat => nomatch stat⟩
  | record returned => exact Or.inr (Or.inr ⟨rfl, rfl⟩)
  | direct _ _ anonymous => exact Or.inl ⟨rfl, fun _ => Or.inr anonymous⟩
  | oldServer _ _ _ | prepare _ _ _ | handle _ _ _ _ _ | keep _ _ _ | reroute _ _ _ | send _ =>
      exact Or.inl ⟨rfl, Or.inl⟩

structure Rpcs.Once (s : Rpcs) : Prop where
  numbered : ∀ job ∈ s.jobs,
    job.request.cltNonce ≠ 0 ∧ job.request.xidRep < job.request.xid
  ordered : ∀ n, Ordered (s.replyWindow n)
  covered : ∀ job ∈ s.jobs, ∀ n x, job.Handled n x → Covers (s.replyWindow n) x
  unique : ∀ (n : UInt32) (x i j : Nat) (first second : Job), s.jobs[i]? = some first → s.jobs[j]? = some second →
    first.Handled n x → second.Handled n x → i = j

theorem Rpcs.Once.start (nonce : UInt32) (procs : Nat → Bool) : (Rpcs.start nonce procs).Once where
  numbered := fun _job member => absurd member List.not_mem_nil
  ordered := fun _n => List.Pairwise.nil
  covered := fun _job member => absurd member List.not_mem_nil
  unique := fun _n _x _i _j _first _second here => nomatch here

theorem Rpcs.Once.gotPdu (once : s.Once) {c : Conn} {request : Request}
    (numbered : request.cltNonce ≠ 0 ∧ request.xidRep < request.xid) :
    Rpcs.Once { s with jobs := s.jobs ++ [Job.start c request] } := by
  have idle : ∀ {n : UInt32} {x : Nat}, ¬ (Job.start c request).Handled n x :=
    fun handled => nomatch handled.1
  refine ⟨?_, once.ordered, ?_, ?_⟩
  · intro job member
    rcases List.mem_append.mp member with before | last
    · exact once.numbered job before
    · rw [List.mem_singleton.mp last]
      exact numbered
  · intro job member n x handled
    rcases List.mem_append.mp member with before | last
    · exact once.covered job before n x handled
    · rw [List.mem_singleton.mp last] at handled
      exact absurd handled idle
  · intro n x i j first second here there handled again
    rcases slot_concat_cases here with before | rfl
    · rcases slot_concat_cases there with other | rfl
      · exact once.unique n x i j first second before other handled again
      · exact absurd again idle
    · exact absurd handled idle

theorem Rpcs.Once.ordered_acts (once : s.Once) (acts : s.Acts job action next after)
    (n : UInt32) : Ordered (next.replyWindow n) := by
  -- Only the acting job's client may have another list.
  have others : ∀ m ≠ job.request.cltNonce, Ordered (s.replyWindow m) :=
    fun m _other => once.ordered m
  have updated := fun rlist => Function.forall_update_iff s.replyWindow
    (a := job.request.cltNonce) (b := rlist) fun _m rlist => Ordered rlist
  rcases acts.window with ⟨same, _stat⟩ | ⟨unknown, _inside, same⟩ | ⟨same, _stat⟩
  · rw [same]
    exact once.ordered n
  · rw [same]
    exact (updated _).mpr ⟨(once.ordered _).inserted unknown _, others⟩ n
  · rw [same]
    exact (updated _).mpr ⟨(once.ordered _).addReply _ _, others⟩ n

theorem Rpcs.Once.covers_acts (once : s.Once) (member : job ∈ s.jobs)
    (acts : s.Acts job action next after) {n : UInt32} {x : Nat}
    (covers : Covers (s.replyWindow n) x) : Covers (next.replyWindow n) x := by
  rcases acts.window with ⟨same, _stat⟩ | ⟨_unknown, inside, same⟩ | ⟨same, _stat⟩
  · rw [same]
    exact covers
  · rw [same]
    by_cases own : n = job.request.cltNonce
    · subst own
      rw [Function.update_self]
      exact Covers.inserted (once.ordered _) inside (once.numbered job member).2 (Or.inr covers)
    · rw [Function.update_of_ne own]
      exact covers
  · rw [same]
    by_cases own : n = job.request.cltNonce
    · subst own
      rw [Function.update_self]
      exact covers_addReply.mpr covers
    · rw [Function.update_of_ne own]
      exact covers

/-- A job that calls the handler now was not covered before, and is afterwards. -/
theorem Rpcs.Once.handled_acts (once : s.Once) (sound : s.Sound) (member : job ∈ s.jobs)
    (acts : s.Acts job action next after) {n : UInt32} {x : Nat} (handled : after.Handled n x) :
    job.Handled n x ∨ (¬ Covers (s.replyWindow n) x ∧ Covers (next.replyWindow n) x) := by
  have request := (acts.later (sound.jobs job member)).request
  obtain ⟨ran, rfl, rfl⟩ := handled
  rw [request]
  rcases acts.window with ⟨_same, stat⟩ | ⟨unknown, inside, same⟩ | ⟨_same, stat⟩
  · rcases stat ran with before | anonymous
    · exact Or.inl ⟨before, rfl, rfl⟩
    · exact absurd anonymous (once.numbered job member).1
  · refine Or.inr ⟨not_covers_of_new unknown inside, ?_⟩
    rw [same, Function.update_self]
    exact Covers.inserted (once.ordered _) inside (once.numbered job member).2 (Or.inl rfl)
  · exact Or.inl ⟨stat.symm.trans ran, rfl, rfl⟩

theorem Rpcs.Once.acts (once : s.Once) (sound : s.Sound) {index : Nat}
    (here : s.jobs[index]? = some job) (acts : s.Acts job action next after) :
    Rpcs.Once { next with jobs := s.jobs.set index after } := by
  have member := List.mem_of_getElem? here
  have fresh := fun {n : UInt32} {x : Nat} =>
    once.handled_acts (n := n) (x := x) sound member acts
  refine ⟨?_, fun n => once.ordered_acts acts n, ?_, ?_⟩
  · intro other inside
    rcases List.mem_or_eq_of_mem_set inside with before | rfl
    · exact once.numbered other before
    · rw [(acts.later (sound.jobs job member)).request]
      exact once.numbered job member
  · intro other inside n x handled
    rcases List.mem_or_eq_of_mem_set inside with before | rfl
    · exact once.covers_acts member acts (once.covered other before n x handled)
    · rcases fresh handled with before | ⟨_absent, covers⟩
      · exact once.covers_acts member acts (once.covered job member n x before)
      · exact covers
  · -- Another job with the same request would already be covered.
    have clash : ∀ {n : UInt32} {x : Nat} {i : Nat} {other : Job}, s.jobs[i]? = some other →
        other.Handled n x → after.Handled n x → index = i := by
      intro n x i other there again handled
      rcases fresh handled with before | ⟨absent, _covers⟩
      · exact once.unique n x index i job other here there before again
      · exact absurd (once.covered other (List.mem_of_getElem? there) n x again) absent
    intro n x i j first second atI atJ handled again
    rcases slot_set_cases atI with ⟨rfl, rfl⟩ | ⟨_otherI, beforeI⟩
    · rcases slot_set_cases atJ with ⟨rfl, rfl⟩ | ⟨_otherJ, beforeJ⟩
      · rfl
      · exact clash beforeJ again handled
    · rcases slot_set_cases atJ with ⟨rfl, rfl⟩ | ⟨_otherJ, beforeJ⟩
      · exact (clash beforeI handled again).symm
      · exact once.unique n x i j first second beforeI beforeJ handled again

theorem Rpcs.Once.step (once : s.Once) (sound : s.Sound) {action : RpcsAction}
    (numbered : action.Numbered) (taken : s.step action = some next) : next.Once := by
  cases action with
  | gotPdu c request =>
      cases taken
      exact once.gotPdu numbered
  | job index action =>
      obtain ⟨job, shared, after, here, acts, rfl⟩ := Rpcs.step_job taken
      exact once.acts sound here acts

/-! ### Duplicates -/

section Retired

-- When a request, by its `xid_rep`, gives up an xid.
variable (retires : Request → Nat → Prop)

/-- A request that was received from this client gives up the xid. -/
def Rpcs.Retired (s : Rpcs) (n : UInt32) (x : Nat) : Prop :=
  ∃ job ∈ s.jobs, job.stat ≠ none ∧ job.request.cltNonce = n ∧ retires job.request x

def Rpcs.InWindow (s : Rpcs) : RpcsAction → Prop
  | .job index .check => ∀ job, s.jobs[index]? = some job →
      (∀ other ∈ s.jobs, ¬ other.Received job.request.cltNonce job.request.xid) →
      ¬ s.Retired retires job.request.cltNonce job.request.xid →
      ∀ front, (s.replyWindow job.request.cltNonce).head? = some front →
        front.xid ≤ job.request.xid
  | _ => True

/-- Whatever was received is still in the window, or was given up. -/
def Rpcs.Remembers (s : Rpcs) : Prop :=
  ∀ n x, (∃ job ∈ s.jobs, job.Received n x) →
    (∃ r ∈ s.replyWindow n, r.xid = x) ∨ s.Retired retires n x

variable {retires}

theorem Rpcs.Remembers.start (nonce : UInt32) (procs : Nat → Bool) :
    (Rpcs.start nonce procs).Remembers retires :=
  fun _n _x ⟨_job, member, _received⟩ => absurd member List.not_mem_nil

theorem Rpcs.Remembers.gotPdu (remembers : s.Remembers retires) (c : Conn) (request : Request) :
    Rpcs.Remembers retires { s with jobs := s.jobs ++ [Job.start c request] } := by
  rintro n x ⟨job, member, received⟩
  rcases List.mem_append.mp member with before | last
  · rcases remembers n x ⟨job, before, received⟩ with entry | ⟨other, inside, gone⟩
    · exact Or.inl entry
    · exact Or.inr ⟨other, List.mem_append_left _ inside, gone⟩
  · rw [List.mem_singleton.mp last] at received
    exact absurd rfl received.1

theorem Rpcs.Once.entry_acts (once : s.Once) (acts : s.Acts job action next after)
    {n : UInt32} {r : ReplyT} (entry : r ∈ s.replyWindow n) :
    (∃ r' ∈ next.replyWindow n, r'.xid = r.xid) ∨
      (after.stat = some .new ∧ job.request.cltNonce = n ∧ r.xid < job.request.xidRep) := by
  cases acts with
  | check admitted stat b rlist checked =>
      change (∃ r' ∈ Function.update s.replyWindow _ rlist n, r'.xid = r.xid) ∨ _
      by_cases own : n = job.request.cltNonce
      · subst own
        rw [Function.update_self]
        cases checked with
        | new unknown inside =>
            by_cases retired : r.xid < job.request.xidRep
            · exact Or.inr ⟨rfl, rfl, retired⟩
            · exact Or.inl ⟨r, (mem_inserted (once.ordered _)).mpr
                ⟨Or.inr entry, not_lt.mp retired⟩, rfl⟩
        | done _ _ _ _ | inProgress _ _ _ _ | forgotten _ _ _ _ => exact Or.inl ⟨r, entry, rfl⟩
      · rw [Function.update_of_ne own]
        exact Or.inl ⟨r, entry, rfl⟩
  | record returned =>
      change (∃ r' ∈ Function.update s.replyWindow _ _ n, r'.xid = r.xid) ∨ _
      by_cases own : n = job.request.cltNonce
      · subst own
        rw [Function.update_self]
        have present : r.xid ∈ (addReply (s.replyWindow job.request.cltNonce) job.request.xid
            job.reply).map ReplyT.xid := by
          rw [addReply_xids]
          exact List.mem_map_of_mem entry
        obtain ⟨r', inside, same⟩ := List.mem_map.mp present
        exact Or.inl ⟨r', inside, same⟩
      · rw [Function.update_of_ne own]
        exact Or.inl ⟨r, entry, rfl⟩
  | oldServer _ _ _ | direct _ _ _ | prepare _ _ _ | handle _ _ _ _ _ | keep _ _ _
  | reroute _ _ _ | send _ => exact Or.inl ⟨r, entry, rfl⟩

theorem Rpcs.Remembers.acts (remembers : s.Remembers retires) (once : s.Once) (sound : s.Sound)
    (below : ∀ request x, x < request.xidRep → retires request x) {index : Nat}
    (here : s.jobs[index]? = some job) (acts : s.Acts job action next after)
    (inWindow : s.InWindow retires (.job index action)) :
    Rpcs.Remembers retires { next with jobs := s.jobs.set index after } := by
  have member := List.mem_of_getElem? here
  have later := acts.later (sound.jobs job member)
  have retired : ∀ {n : UInt32} {x : Nat}, s.Retired retires n x →
      Rpcs.Retired retires { next with jobs := s.jobs.set index after } n x := by
    intro n x gone
    apply exists_mem_set _ here _ gone
    rintro ⟨seen, client, gives⟩
    rw [later.stat seen, later.request]
    exact ⟨seen, client, gives⟩
  have earlier : ∀ {n : UInt32} {x : Nat}, (∃ other ∈ s.jobs, other.Received n x) →
      (∃ r ∈ next.replyWindow n, r.xid = x) ∨
        Rpcs.Retired retires { next with jobs := s.jobs.set index after } n x := by
    intro n x received
    rcases remembers n x received with ⟨r, entry, rfl⟩ | gone
    · rcases once.entry_acts acts entry with kept | ⟨ran, client, gives⟩
      · exact Or.inl kept
      · refine Or.inr ⟨after, mem_set_self here, ?_, ?_, ?_⟩
        · rw [ran]
          exact Option.some_ne_none _
        · rw [later.request]
          exact client
        · rw [later.request]
          exact below _ _ gives
    · exact Or.inr (retired gone)
  rintro n x ⟨other, inside, received⟩
  rcases List.mem_or_eq_of_mem_set inside with before | rfl
  · exact earlier ⟨other, before, received⟩
  · by_cases unseen : job.stat = none
    · have numbered := once.numbered job member
      obtain ⟨seen, rfl, rfl⟩ := received
      rw [later.request]
      cases acts with
      | check admitted stat b rlist checked =>
          change (∃ r ∈ Function.update s.replyWindow _ rlist _, _) ∨ _
          rw [Function.update_self]
          cases checked with
          | done r entry same present => exact Or.inl ⟨r, entry, same⟩
          | inProgress r entry same absent => exact Or.inl ⟨r, entry, same⟩
          | new unknown inside =>
              exact Or.inl ⟨_, (mem_inserted (once.ordered _)).mpr
                ⟨Or.inl rfl, numbered.2.le⟩, rfl⟩
          | forgotten front unknown first under =>
              by_cases received : ∃ other ∈ s.jobs,
                  other.Received job.request.cltNonce job.request.xid
              · rcases remembers _ _ received with ⟨r, entry, same⟩ | gone
                · exact absurd same (unknown r entry)
                · exact Or.inr (retired gone)
              · by_cases gone : s.Retired retires job.request.cltNonce job.request.xid
                · exact Or.inr (retired gone)
                · have inside := inWindow job here
                    (fun other inside again => received ⟨other, inside, again⟩) gone front first
                  exact absurd under (not_lt.mpr inside)
      | direct _ _ anonymous => exact absurd anonymous numbered.1
      | oldServer _ _ _ | prepare _ _ _ | handle _ _ _ _ _ | record _ | keep _ _ _
      | reroute _ _ _ | send _ => exact absurd unseen seen
    · obtain ⟨_seen, client, xid⟩ := received
      rw [later.request] at client xid
      exact earlier ⟨job, member, unseen, client, xid⟩

theorem Rpcs.Remembers.step (remembers : s.Remembers retires) (once : s.Once) (sound : s.Sound)
    (below : ∀ request x, x < request.xidRep → retires request x) {action : RpcsAction}
    (inWindow : s.InWindow retires action) (taken : s.step action = some next) :
    next.Remembers retires := by
  cases action with
  | gotPdu c request =>
      cases taken
      exact remembers.gotPdu c request
  | job index action =>
      obtain ⟨job, shared, after, here, acts, rfl⟩ := Rpcs.step_job taken
      exact remembers.acts once sound below here acts inWindow

/-- The check of a duplicate that has not been given up: it is dropped, or it
gets the reply of the job that called the handler. -/
theorem Rpcs.Remembers.duplicate (remembers : s.Remembers retires) (sound : s.Sound)
    {index : Nat} (here : s.jobs[index]? = some job)
    (received : ∃ other ∈ s.jobs, other.Received job.request.cltNonce job.request.xid)
    (kept : ¬ s.Retired retires job.request.cltNonce job.request.xid)
    (taken : s.step (.job index .check) = some next) :
    next.jobs[index]? = some (job.checked .inProgress none) ∨
      ∃ first ∈ s.jobs, first.Handled job.request.cltNonce job.request.xid ∧
        first.reply ≠ none ∧ next.jobs[index]? = some (job.checked .done first.reply) := by
  obtain ⟨_job, shared, after, there, acts, rfl⟩ := Rpcs.step_job taken
  cases here.symm.trans there
  have answer : (s.jobs.set index after)[index]? = some after := slot_set_self here
  obtain ⟨r, entry, same⟩ := (remembers _ _ received).resolve_right kept
  cases acts with
  | check admitted stat b rlist checked =>
      cases checked with
      | inProgress _ _ _ _ => exact Or.inl answer
      | done r entry same present =>
          obtain ⟨_named, first, inside, backs⟩ := sound.entries _ r entry
          have ⟨buf, reply⟩ := backs.present present
          refine Or.inr ⟨first, inside, same ▸ backs.handled, ?_, ?_⟩
          · rw [reply]
            exact buf
          · rw [reply]
            exact answer
      | forgotten front unknown first below => exact absurd same (unknown r entry)
      | new unknown inside => exact absurd same (unknown r entry)

/-- The check of a request outside its window refuses as forgotten what was never
received before. -/
theorem Rpcs.Sound.forgets (sound : s.Sound) {index : Nat} (here : s.jobs[index]? = some job)
    (outside : ¬ s.InWindow retires (.job index .check))
    (taken : s.step (.job index .check) = some next) :
    (∀ other ∈ s.jobs, ¬ other.Received job.request.cltNonce job.request.xid) ∧
      ¬ s.Retired retires job.request.cltNonce job.request.xid ∧
      next.jobs[index]? = some (job.checked .forgotten none) := by
  unfold Rpcs.InWindow at outside
  push Not at outside
  obtain ⟨_job, there, unreceived, kept, front, first, below⟩ := outside
  cases here.symm.trans there
  refine ⟨unreceived, kept, ?_⟩
  obtain ⟨_job, shared, after, there, acts, rfl⟩ := Rpcs.step_job taken
  cases here.symm.trans there
  have answer : (s.jobs.set index after)[index]? = some after := slot_set_self here
  have unknown : ∀ r ∈ s.replyWindow job.request.cltNonce, r.xid ≠ job.request.xid := by
    intro r entry same
    obtain ⟨_named, other, inside, backs⟩ := sound.entries _ r entry
    obtain ⟨ran, client, xid⟩ := backs.handled
    refine unreceived other inside ⟨?_, client, xid.trans same⟩
    rw [ran]
    exact Option.some_ne_none _
  cases acts with
  | check admitted stat b rlist checked =>
      cases checked with
      | forgotten _ _ _ _ => exact answer
      | done r entry same _ => exact absurd same (unknown r entry)
      | inProgress r entry same _ => exact absurd same (unknown r entry)
      | new _ inside => exact absurd (inside front first) (not_le.mpr below)

end Retired

/-! ### Runs -/

def Overtaken (request : Request) (x : Nat) : Prop := x < request.xidRep

theorem Rpcs.run_once {nonce : UInt32} {procs : Nat → Bool} {actions : List RpcsAction}
    (numbered : ∀ action ∈ actions, action.Numbered)
    (ran : run Rpcs.step (.start nonce procs) actions = some s) : s.Sound ∧ s.Once := by
  have preserved : ∀ (s : Rpcs) action next, s.Sound ∧ s.Once → action.Numbered →
      s.step action = some next → next.Sound ∧ next.Once :=
    fun s action next holds numbered taken =>
      ⟨holds.1.step taken, holds.2.step holds.1 numbered taken⟩
  exact Guarded.invariant preserved (Guarded.ofForall numbered)
    ⟨Rpcs.Sound.start nonce procs, Rpcs.Once.start nonce procs⟩ ran

theorem Rpcs.run_remembers {retires : Request → Nat → Prop}
    (below : ∀ request x, x < request.xidRep → retires request x) {nonce : UInt32}
    {procs : Nat → Bool} {actions : List RpcsAction}
    (numbered : ∀ action ∈ actions, action.Numbered)
    (inWindow : Guarded Rpcs.step (fun s => s.InWindow retires) (.start nonce procs) actions)
    (ran : run Rpcs.step (.start nonce procs) actions = some s) : s.Remembers retires := by
  have preserved : ∀ (s : Rpcs) action next, (s.Sound ∧ s.Once) ∧ s.Remembers retires →
      action.Numbered ∧ s.InWindow retires action → s.step action = some next →
      (next.Sound ∧ next.Once) ∧ next.Remembers retires := by
    rintro s action next ⟨⟨sound, once⟩, remembers⟩ ⟨numbered, inWindow⟩ taken
    exact ⟨⟨sound.step taken, once.step sound numbered taken⟩,
      remembers.step once sound below inWindow taken⟩
  exact (Guarded.invariant preserved ((Guarded.ofForall numbered).and inWindow)
    ⟨⟨Rpcs.Sound.start nonce procs, Rpcs.Once.start nonce procs⟩,
      Rpcs.Remembers.start nonce procs⟩ ran).2

/-- In every run the handler is called at most once for a request; and in every
run in which no new request arrives below its window, a duplicate that has not
been overtaken is dropped or gets the reply of that one call. -/
theorem handled_once {nonce : UInt32} {procs : Nat → Bool} {actions : List RpcsAction}
    (numbered : ∀ action ∈ actions, action.Numbered)
    (ran : run Rpcs.step (.start nonce procs) actions = some s) :
    (∀ (n : UInt32) (x i j : Nat) (first second : Job), s.jobs[i]? = some first → s.jobs[j]? = some second →
      first.Handled n x → second.Handled n x → i = j) ∧
    (Guarded Rpcs.step (fun s => s.InWindow Overtaken) (.start nonce procs) actions →
      ∀ index job next, s.jobs[index]? = some job →
        (∃ other ∈ s.jobs, other.Received job.request.cltNonce job.request.xid) →
        ¬ s.Retired Overtaken job.request.cltNonce job.request.xid →
        s.step (.job index .check) = some next →
        next.jobs[index]? = some (job.checked .inProgress none) ∨
          ∃ first ∈ s.jobs, first.Handled job.request.cltNonce job.request.xid ∧
            first.reply ≠ none ∧ next.jobs[index]? = some (job.checked .done first.reply)) := by
  have ⟨sound, once⟩ := Rpcs.run_once numbered ran
  refine ⟨once.unique, ?_⟩
  intro inWindow index job next here received kept taken
  have remembers := Rpcs.run_remembers (fun _request _x below => below) numbered inWindow ran
  exact remembers.duplicate sound here received kept taken

/-! ### A new request below its window -/

instance (job : Job) (n : UInt32) (x : Nat) : Decidable (job.Received n x) := by
  unfold Job.Received
  infer_instance

instance (request : Request) (x : Nat) : Decidable (Overtaken request x) := by
  unfold Overtaken
  infer_instance

instance (retires : Request → Nat → Prop) [∀ request x, Decidable (retires request x)] (s : Rpcs)
    (n : UInt32) (x : Nat) : Decidable (s.Retired retires n x) := by
  unfold Rpcs.Retired
  infer_instance

instance (retires : Request → Nat → Prop) [∀ request x, Decidable (retires request x)] (s : Rpcs)
    (action : RpcsAction) : Decidable (s.InWindow retires action) :=
  match action with
  | .job index .check =>
      match here : s.jobs[index]? with
      | none => isTrue fun _job there => nomatch here.symm.trans there
      | some job =>
          decidable_of_iff
            ((∀ other ∈ s.jobs, ¬ other.Received job.request.cltNonce job.request.xid) →
              ¬ s.Retired retires job.request.cltNonce job.request.xid →
              ∀ front ∈ (s.replyWindow job.request.cltNonce).head?,
                front.xid ≤ job.request.xid)
            ⟨fun met _job there => Option.some.inj (here.symm.trans there) ▸ met,
              fun met => met job here⟩
  | .gotPdu _ _ | .job _ .prepare | .job _ (.handle _ _) | .job _ .record | .job _ (.choose _)
  | .job _ .send => isTrue trivial

def sampleConn : Conn := { owner := 5, id := 1, createTime := 0 }

def bindRequest : Request :=
  { xid := 1, proc := RpcConst.bind, cltNonce := 5, srvNonce := 0, xidRep := 0, args := [0, 0, 0, 0] }

def lateRequest (xid : Nat) : Request :=
  { xid := xid, proc := 2, cltNonce := 5, srvNonce := 9, xidRep := 2, args := [] }

def arrival (index : Nat) (request : Request) : List RpcsAction :=
  [.gotPdu sampleConn request, .job index .prepare, .job index .check]

/-- Calls 3 and 4 arrive in order; call 3 arrives again once it is answered. -/
def answeredActions : List RpcsAction :=
  arrival 0 bindRequest ++ arrival 1 (lateRequest 3) ++ arrival 2 (lateRequest 4) ++
    [.job 1 (.handle 0 [7]), .job 1 .record, .gotPdu sampleConn (lateRequest 3), .job 3 .prepare]

theorem handled_once_answered : ∃ s job next,
    run Rpcs.step (.start 9 (fun proc => proc = 2)) answeredActions = some s ∧
      s.jobs[3]? = some job ∧ s.step (.job 3 .check) = some next ∧
      (next.jobs[3]? = some (job.checked .inProgress none) ∨
        ∃ first ∈ s.jobs, first.Handled job.request.cltNonce job.request.xid ∧
          first.reply ≠ none ∧ next.jobs[3]? = some (job.checked .done first.reply)) :=
  ⟨_, _, _, rfl, rfl, rfl,
    (@handled_once _ 9 (fun proc => proc = 2) answeredActions (by decide) rfl).2 (by decide)
      3 _ _ rfl (by decide) (by decide) rfl⟩

/-- Call 2 is lost; call 4 overtakes call 3, which arrives twice. -/
def overtakingActions : List RpcsAction :=
  arrival 0 bindRequest ++ arrival 1 (lateRequest 4) ++ arrival 2 (lateRequest 3) ++
    [.gotPdu sampleConn (lateRequest 3), .job 3 .prepare]

theorem duplicate_forgotten : ∃ actions s job next,
    (∀ action ∈ actions, action.Numbered) ∧
      run Rpcs.step (.start 9 (fun proc => proc = 2)) actions = some s ∧
      s.jobs[3]? = some job ∧
      (∃ other ∈ s.jobs, other.Received job.request.cltNonce job.request.xid) ∧
      ¬ s.Retired Overtaken job.request.cltNonce job.request.xid ∧
      s.step (.job 3 .check) = some next ∧
      next.jobs[3]? = some (job.checked .forgotten none) :=
  ⟨overtakingActions, _, _, _, by decide, rfl, rfl, by decide, by decide, rfl, rfl⟩

end CseLab.Rpc
