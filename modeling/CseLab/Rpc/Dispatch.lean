import CseLab.Lib.Slots
import CseLab.Rpc.Server

/-! What a server knows of its jobs. A job keeps its request and never changes
what it has learnt; every entry of a window stands for a job that called the
handler, and every reply given again is the reply of such a job. -/

namespace CseLab.Rpc

open BigEndian OrderedWindow Slots

/-! ### Jobs -/

/-- The job called the handler for this request. -/
def Job.Handled (job : Job) (n : UInt32) (x : Nat) : Prop :=
  job.stat = some .new ∧ job.request.cltNonce = n ∧ job.request.xid = x

/-- The duplicate check saw this request. -/
def Job.Received (job : Job) (n : UInt32) (x : Nat) : Prop :=
  job.stat ≠ none ∧ job.request.cltNonce = n ∧ job.request.xid = x

structure Job.Sound (nonce : UInt32) (job : Job) : Prop where
  waiting : job.phase = .queued ∨ job.phase = .admitted → job.stat = none ∧ job.reply = none
  running : job.phase = .running → job.stat = some .new ∧ job.reply = none
  ran : job.phase = .returned ∨ job.phase = .recorded → job.stat = some .new
  replying : job.phase = .returned ∨ job.phase = .recorded ∨ job.phase = .sending →
    job.reply ≠ none
  named : job.phase = .admitted ∨ job.phase = .returned → job.request.cltNonce ≠ 0
  accepted : job.phase = .admitted ∨ job.stat ≠ none →
    job.request.srvNonce = 0 ∨ job.request.srvNonce = nonce
  result : job.stat = some .new → ∀ r, job.reply = some r →
    r.xid = job.request.xid ∧ 0 ≤ r.ret ∧
      (job.request.proc = RpcConst.bind → r.ret = 0 ∧ r.body = bytes32 nonce)
  refusal : job.stat ≠ some .new → job.stat ≠ some .done → ∀ r, job.reply = some r →
    r.xid = job.request.xid ∧ r.ret < 0 ∧
      (r.ret = RpcConst.atmostonceFailure → job.stat = some .forgotten)

structure Job.Later (job after : Job) : Prop where
  request : after.request = job.request
  stat : job.stat ≠ none → after.stat = job.stat
  reply : job.reply ≠ none → after.reply = job.reply

theorem Job.Later.refl (job : Job) : job.Later job := ⟨rfl, fun _ => rfl, fun _ => rfl⟩

theorem Job.Later.handled {job after : Job} (later : job.Later after) {n : UInt32} {x : Nat}
    (handled : job.Handled n x) : after.Handled n x := by
  obtain ⟨ran, client, xid⟩ := handled
  refine ⟨?_, ?_, ?_⟩
  · rw [later.stat (by rw [ran]; exact Option.some_ne_none _), ran]
  · rw [later.request, client]
  · rw [later.request, xid]

theorem Job.Sound.start (nonce : UInt32) (c : Conn) (request : Request) :
    (Job.start c request).Sound nonce where
  waiting := fun _ => ⟨rfl, rfl⟩
  running := fun phase => nomatch phase
  ran := fun phase => nomatch phase
  replying := fun phase => nomatch phase
  named := fun phase => nomatch phase
  accepted := fun seen => seen.elim (fun phase => nomatch phase) (fun stat => absurd rfl stat)
  result := fun stat => nomatch stat
  refusal := fun _ _ _r reply => nomatch reply

variable {s next : Rpcs} {job after : Job} {action : JobAction}

theorem Rpcs.Acts.nonce (acts : s.Acts job action next after) : next.nonce = s.nonce := by
  cases acts <;> rfl

theorem Rpcs.Acts.later (acts : s.Acts job action next after) (sound : job.Sound s.nonce) :
    job.Later after := by
  cases acts with
  | oldServer queued old other =>
      exact ⟨rfl, fun _ => rfl, fun reply => absurd (sound.waiting (Or.inl queued)).2 reply⟩
  | direct queued accepted anonymous =>
      exact ⟨rfl, fun stat => absurd (sound.waiting (Or.inl queued)).1 stat, fun _ => rfl⟩
  | prepare queued accepted named => exact ⟨rfl, fun _ => rfl, fun _ => rfl⟩
  | check admitted stat b rlist checked =>
      have ⟨unseen, silent⟩ := sound.waiting (Or.inr admitted)
      refine ⟨?_, fun seen => absurd unseen seen, fun reply => absurd silent reply⟩
      cases stat <;> rfl
  | handle running ret body valid bind =>
      exact ⟨rfl, fun _ => rfl, fun reply => absurd (sound.running running).2 reply⟩
  | record returned => exact ⟨rfl, fun _ => rfl, fun _ => rfl⟩
  | keep recorded isdead good => exact ⟨rfl, fun _ => rfl, fun _ => rfl⟩
  | reroute recorded c latest => exact ⟨rfl, fun _ => rfl, fun _ => rfl⟩
  | send sending => exact ⟨rfl, fun _ => rfl, fun _ => rfl⟩

private theorem Job.Sound.past {nonce : UInt32} {job after : Job} (sound : job.Sound nonce)
    (phase : after.phase = .recorded ∨ after.phase = .sending ∨ after.phase = .finished)
    (request : after.request = job.request) (stat : after.stat = job.stat)
    (reply : after.reply = job.reply) (ran : after.phase = .recorded → job.stat = some .new)
    (replying : after.phase ≠ .finished → job.reply ≠ none) : after.Sound nonce := by
  obtain ⟨conn, request', stat', reply', phase'⟩ := after
  subst request stat reply
  refine ⟨?_, ?_, ?_, ?_, ?_, ?_, sound.result, sound.refusal⟩
  · rintro (here | here) <;> rcases phase with there | there | there <;>
      cases here.symm.trans there
  · intro here
    rcases phase with there | there | there <;> cases here.symm.trans there
  · rintro (here | here)
    · rcases phase with there | there | there <;> cases here.symm.trans there
    · exact ran here
  · rintro here
    apply replying
    rintro there
    rcases here with here | here | here <;> cases here.symm.trans there
  · rintro (here | here) <;> rcases phase with there | there | there <;>
      cases here.symm.trans there
  · rintro (here | seen)
    · rcases phase with there | there | there <;> cases here.symm.trans there
    · exact sound.accepted (Or.inr seen)

private theorem Job.Sound.handled {nonce : UInt32} {job : Job}
    (accepted : job.request.srvNonce = 0 ∨ job.request.srvNonce = nonce)
    (silent : job.reply = none) :
    ({ job with stat := some .new, phase := .running } : Job).Sound nonce where
  waiting := by rintro (phase | phase) <;> cases phase
  running := fun _ => ⟨rfl, silent⟩
  ran := by rintro (phase | phase) <;> cases phase
  replying := by rintro (phase | phase | phase) <;> cases phase
  named := by rintro (phase | phase) <;> cases phase
  accepted := fun _ => accepted
  result := fun _ r reply => nomatch silent.symm.trans reply
  refusal := fun stat => absurd rfl stat

private theorem Job.Sound.refused {nonce : UInt32} (job : Job) {ret : Int}
    (accepted : job.stat ≠ none → job.request.srvNonce = 0 ∨ job.request.srvNonce = nonce)
    (unhandled : job.stat ≠ some .new) (negative : ret < 0)
    (forgotten : ret = RpcConst.atmostonceFailure → job.stat = some .forgotten) :
    ({ job with
      reply := some { xid := job.request.xid, ret := ret, body := [] }
      phase := .sending } : Job).Sound nonce where
  waiting := by rintro (phase | phase) <;> cases phase
  running := fun phase => nomatch phase
  ran := by rintro (phase | phase) <;> cases phase
  replying := fun _ => Option.some_ne_none _
  named := by rintro (phase | phase) <;> cases phase
  accepted := fun seen => seen.elim (fun phase => nomatch phase) accepted
  result := fun stat => absurd stat unhandled
  refusal := by
    intro _ _ r reply
    cases reply
    exact ⟨rfl, negative, forgotten⟩

theorem Job.Sound.checked {nonce : UInt32} {job : Job} (sound : job.Sound nonce)
    (admitted : job.phase = .admitted) {rlist next : List ReplyT} {xid xidRep : Nat}
    {stat : RpcState} {b : Option Reply} (checked : Checked rlist xid xidRep stat b next)
    (present : ∀ r ∈ rlist, r.cbPresent = true → r.buf ≠ none) :
    (job.checked stat b).Sound nonce := by
  have ⟨_unseen, silent⟩ := sound.waiting (Or.inr admitted)
  have accepted := sound.accepted (Or.inl admitted)
  cases checked with
  | done r member same here =>
      exact
        { waiting := by rintro (phase | phase) <;> cases phase
          running := fun phase => nomatch phase
          ran := by rintro (phase | phase) <;> cases phase
          replying := fun _ => present r member here
          named := by rintro (phase | phase) <;> cases phase
          accepted := fun _ => accepted
          result := fun stat => nomatch stat
          refusal := fun _ done => absurd rfl done }
  | inProgress r member same absent =>
      exact
        { waiting := by rintro (phase | phase) <;> cases phase
          running := fun phase => nomatch phase
          ran := by rintro (phase | phase) <;> cases phase
          replying := by rintro (phase | phase | phase) <;> cases phase
          named := by rintro (phase | phase) <;> cases phase
          accepted := fun _ => accepted
          result := fun stat => nomatch stat
          refusal := fun _ _ r reply => nomatch silent.symm.trans reply }
  | forgotten front unknown first below =>
      exact Job.Sound.refused { job with stat := some .forgotten } (fun _ => accepted)
        (fun stat => nomatch stat) (by decide) (fun _ => rfl)
  | new unknown inside => exact Job.Sound.handled accepted silent

theorem Rpcs.Acts.sound (acts : s.Acts job action next after) (sound : job.Sound s.nonce)
    (present : ∀ r ∈ s.replyWindow job.request.cltNonce, r.cbPresent = true → r.buf ≠ none) :
    after.Sound s.nonce := by
  cases acts with
  | oldServer queued old other =>
      have ⟨unseen, _silent⟩ := sound.waiting (Or.inl queued)
      apply Job.Sound.refused job (fun seen => absurd unseen seen)
      · rw [unseen]
        exact fun stat => nomatch stat
      · decide
      · exact fun same =>
          absurd same (by decide : RpcConst.oldsrvFailure ≠ RpcConst.atmostonceFailure)
  | direct queued accepted anonymous =>
      exact Job.Sound.handled accepted (sound.waiting (Or.inl queued)).2
  | prepare queued accepted named =>
      have waiting := sound.waiting (Or.inl queued)
      exact
        { waiting := fun _ => waiting
          running := fun phase => nomatch phase
          ran := by rintro (phase | phase) <;> cases phase
          replying := by rintro (phase | phase | phase) <;> cases phase
          named := fun _ => named
          accepted := fun _ => accepted
          result := sound.result
          refusal := sound.refusal }
  | check admitted stat b rlist checked => exact sound.checked admitted checked present
  | handle running ret body valid bind =>
      have ⟨stat, _silent⟩ := sound.running running
      have named : (if job.request.cltNonce = 0 then Phase.recorded else .returned) = .returned →
          job.request.cltNonce ≠ 0 := by
        intro phase anonymous
        rw [if_pos anonymous] at phase
        cases phase
      have past : (if job.request.cltNonce = 0 then Phase.recorded else .returned) = .recorded ∨
          (if job.request.cltNonce = 0 then Phase.recorded else .returned) = .returned := by
        split
        · exact Or.inl rfl
        · exact Or.inr rfl
      exact
        { waiting := by
            rintro (phase | phase) <;> rcases past with there | there <;>
              cases phase.symm.trans there
          running := by
            intro phase
            rcases past with there | there <;> cases phase.symm.trans there
          ran := fun _ => stat
          replying := fun _ => Option.some_ne_none _
          named := by
            rintro (phase | phase)
            · rcases past with there | there <;> cases phase.symm.trans there
            · exact named phase
          accepted := fun _ => sound.accepted (Or.inr (by rw [stat]; exact Option.some_ne_none _))
          result := by
            intro _ r reply
            cases reply
            exact ⟨rfl, valid, bind⟩
          refusal := fun other => absurd stat other }
  | record returned =>
      exact sound.past (Or.inl rfl) rfl rfl rfl (fun _ => sound.ran (Or.inl returned))
        (fun _ => sound.replying (Or.inl returned))
  | keep recorded isdead good =>
      exact sound.past (Or.inr (Or.inl rfl)) rfl rfl rfl (fun phase => nomatch phase)
        (fun _ => sound.replying (Or.inr (Or.inl recorded)))
  | reroute recorded c latest =>
      exact sound.past (Or.inr (Or.inl rfl)) rfl rfl rfl (fun phase => nomatch phase)
        (fun _ => sound.replying (Or.inr (Or.inl recorded)))
  | send sending =>
      exact sound.past (Or.inr (Or.inr rfl)) rfl rfl rfl (fun phase => nomatch phase)
        (fun other => absurd rfl other)

/-! ### The server -/

/-- A job stands behind an entry of a window: it has not come to `add_reply`,
or the entry has its reply. -/
structure Job.Backs (job : Job) (n : UInt32) (r : ReplyT) : Prop where
  handled : job.Handled n r.xid
  absent : r.cbPresent = false → job.phase = .running ∨ job.phase = .returned
  present : r.cbPresent = true → r.buf ≠ none ∧ job.reply = r.buf

structure Rpcs.Sound (s : Rpcs) : Prop where
  jobs : ∀ job ∈ s.jobs, job.Sound s.nonce
  entries : ∀ n, ∀ r ∈ s.replyWindow n, n ≠ 0 ∧ ∃ job ∈ s.jobs, job.Backs n r
  done : ∀ job ∈ s.jobs, job.stat = some .done →
    job.reply ≠ none ∧ ∃ first ∈ s.jobs,
      first.Handled job.request.cltNonce job.request.xid ∧ first.reply = job.reply

theorem Rpcs.Sound.start (nonce : UInt32) (procs : Nat → Bool) : (Rpcs.start nonce procs).Sound where
  jobs := fun _job member => absurd member List.not_mem_nil
  entries := fun _n _r member => absurd member List.not_mem_nil
  done := fun _job member => absurd member List.not_mem_nil

theorem Rpcs.Sound.present (sound : s.Sound) {n : UInt32} {r : ReplyT}
    (member : r ∈ s.replyWindow n) (here : r.cbPresent = true) : r.buf ≠ none := by
  obtain ⟨_named, _job, _inside, backs⟩ := sound.entries n r member
  exact (backs.present here).1

theorem Rpcs.Sound.gotPdu (sound : s.Sound) (c : Conn) (request : Request) :
    Rpcs.Sound { s with jobs := s.jobs ++ [Job.start c request] } := by
  refine ⟨?_, ?_, ?_⟩
  · intro job member
    rcases List.mem_append.mp member with before | last
    · exact sound.jobs job before
    · rw [List.mem_singleton.mp last]
      exact Job.Sound.start s.nonce c request
  · intro n r member
    obtain ⟨named, job, inside, backs⟩ := sound.entries n r member
    exact ⟨named, job, List.mem_append_left _ inside, backs⟩
  · intro job member done
    rcases List.mem_append.mp member with before | last
    · obtain ⟨reply, first, inside, same⟩ := sound.done job before done
      exact ⟨reply, first, List.mem_append_left _ inside, same⟩
    · rw [List.mem_singleton.mp last] at done
      cases done

theorem Rpcs.Acts.backs (acts : s.Acts job action next after) (sound : job.Sound s.nonce)
    {n : UInt32} (named : n ≠ 0) {r : ReplyT} (backs : job.Backs n r)
    (other : job.phase = .returned → r.cbPresent = true) : after.Backs n r := by
  have later := acts.later sound
  have ran := backs.handled.1
  have client := backs.handled.2.1
  refine ⟨later.handled backs.handled, ?_, ?_⟩
  · intro absent
    have phase : job.phase = .running := by
      rcases backs.absent absent with running | returned
      · exact running
      · exact Bool.noConfusion (absent.symm.trans (other returned))
    cases acts with
    | handle running ret body valid bind =>
        rw [← client] at named
        exact Or.inr (if_neg named)
    | oldServer there | direct there | prepare there | check there | record there | keep there
    | reroute there | send there => cases phase.symm.trans there
  · intro here
    have ⟨buf, same⟩ := backs.present here
    exact ⟨buf, (later.reply (by rw [same]; exact buf)).trans same⟩

theorem Rpcs.Sound.entries_acts (sound : s.Sound) {index : Nat}
    (here : s.jobs[index]? = some job) (acts : s.Acts job action next after) (n : UInt32)
    {r : ReplyT} (member : r ∈ next.replyWindow n) :
    n ≠ 0 ∧ ∃ job ∈ s.jobs.set index after, job.Backs n r := by
  have jobSound := sound.jobs job (List.mem_of_getElem? here)
  have kept : r ∈ s.replyWindow n → (job.Handled n r.xid → job.phase = .returned →
      r.cbPresent = true) → n ≠ 0 ∧ ∃ job ∈ s.jobs.set index after, job.Backs n r := by
    intro before other
    obtain ⟨named, backed⟩ := sound.entries n r before
    exact ⟨named, exists_mem_set _ here
      (fun backs => acts.backs jobSound named backs (other backs.handled)) backed⟩
  cases acts with
  | check admitted stat b rlist checked =>
      have idle : job.phase ≠ .returned := by
        rw [admitted]
        exact Phase.noConfusion
      change r ∈ Function.update s.replyWindow job.request.cltNonce rlist n at member
      by_cases same : n = job.request.cltNonce
      · subst same
        rw [Function.update_self] at member
        cases checked with
        | done _ _ _ _ => exact kept member (fun _ returned => absurd returned idle)
        | inProgress _ _ _ _ => exact kept member (fun _ returned => absurd returned idle)
        | forgotten _ _ _ _ => exact kept member (fun _ returned => absurd returned idle)
        | new unknown inside =>
            have origin := mem_insertByKey.mp ((List.dropWhile_sublist _).subset member)
            rcases origin with rfl | before
            · refine ⟨jobSound.named (Or.inl admitted), _, mem_set_self here, ?_⟩
              exact ⟨⟨rfl, rfl, rfl⟩, fun _ => Or.inl rfl, fun present => nomatch present⟩
            · exact kept before (fun _ returned => absurd returned idle)
      · rw [Function.update_of_ne same] at member
        exact kept member (fun _ returned => absurd returned idle)
  | record returned =>
      change r ∈ Function.update s.replyWindow job.request.cltNonce _ n at member
      by_cases same : n = job.request.cltNonce
      · subst same
        rw [Function.update_self] at member
        rcases mem_addReply member with ⟨xid, present, buf⟩ | ⟨before, otherXid⟩
        · refine ⟨jobSound.named (Or.inr returned), _, mem_set_self here, ?_, ?_, ?_⟩
          · exact ⟨jobSound.ran (Or.inl returned), rfl, xid.symm⟩
          · exact fun absent => Bool.noConfusion (absent.symm.trans present)
          · intro _present
            rw [buf]
            exact ⟨jobSound.replying (Or.inl returned), rfl⟩
        · exact kept before (fun handled => absurd handled.2.2.symm otherXid)
      · rw [Function.update_of_ne same] at member
        exact kept member (fun handled => absurd handled.2.1.symm same)
  | oldServer there | direct there | prepare there | handle there | keep there | reroute there
  | send there => exact kept member (fun _ returned => nomatch there.symm.trans returned)

theorem Rpcs.Acts.done (acts : s.Acts job action next after) (sound : s.Sound)
    (answered : after.stat = some .done) :
    job.stat = some .done ∨ after.reply ≠ none ∧ ∃ first ∈ s.jobs,
      first.Handled job.request.cltNonce job.request.xid ∧ first.reply = after.reply := by
  cases acts with
  | check admitted stat b rlist checked =>
      cases checked with
      | done r inside same present =>
          obtain ⟨_named, first, earlier, backs⟩ := sound.entries _ r inside
          have ⟨buf, reply⟩ := backs.present present
          exact Or.inr ⟨buf, first, earlier, same ▸ backs.handled, reply⟩
      | inProgress _ _ _ _ => cases answered
      | forgotten _ _ _ _ => cases answered
      | new _ _ => cases answered
  | direct _ _ _ => cases answered
  | oldServer _ _ _ | prepare _ _ _ | handle _ _ _ _ _ | record _ | keep _ _ _ | reroute _ _ _
  | send _ => exact Or.inl answered

theorem Rpcs.Sound.acts (sound : s.Sound) {index : Nat} (here : s.jobs[index]? = some job)
    (acts : s.Acts job action next after) :
    Rpcs.Sound { next with jobs := s.jobs.set index after } := by
  have member := List.mem_of_getElem? here
  have jobSound := sound.jobs job member
  have later := acts.later jobSound
  refine ⟨?_, fun n r inside => sound.entries_acts here acts n inside, ?_⟩
  · intro other inside
    change other.Sound next.nonce
    rw [acts.nonce]
    rcases List.mem_or_eq_of_mem_set inside with before | rfl
    · exact sound.jobs other before
    · exact acts.sound jobSound (fun r here => sound.present here)
  · intro other inside done
    have carried : ∀ {n : UInt32} {x : Nat} {reply : Option Reply}, reply ≠ none →
        (∃ first ∈ s.jobs, first.Handled n x ∧ first.reply = reply) →
        ∃ first ∈ s.jobs.set index after, first.Handled n x ∧ first.reply = reply := by
      intro n x reply present
      apply exists_mem_set _ here
      intro ⟨handled, same⟩
      exact ⟨later.handled handled, (later.reply (by rw [same]; exact present)).trans same⟩
    have earlier : other ∈ s.jobs → other.reply ≠ none ∧ ∃ first ∈ s.jobs.set index after,
        first.Handled other.request.cltNonce other.request.xid ∧ first.reply = other.reply := by
      intro before
      obtain ⟨reply, first⟩ := sound.done other before done
      exact ⟨reply, carried reply first⟩
    rcases List.mem_or_eq_of_mem_set inside with before | rfl
    · exact earlier before
    · rcases acts.done sound done with already | ⟨reply, first⟩
      · obtain ⟨reply, first⟩ := sound.done job member already
        have sameReply := later.reply reply
        rw [later.request, sameReply]
        exact ⟨reply, carried reply first⟩
      · rw [later.request]
        exact ⟨reply, carried reply first⟩

theorem Rpcs.Sound.step (sound : s.Sound) {action : RpcsAction} (taken : s.step action = some next) :
    next.Sound := by
  cases action with
  | gotPdu c request =>
      cases taken
      exact sound.gotPdu c request
  | job index action =>
      obtain ⟨job, shared, after, here, acts, rfl⟩ := Rpcs.step_job taken
      exact sound.acts here acts

theorem Rpcs.Sound.reply (sound : s.Sound) (member : job ∈ s.jobs) {r : Reply}
    (replied : job.reply = some r) :
    r.xid = job.request.xid ∧
      (0 ≤ r.ret → ∃ first ∈ s.jobs,
        first.Handled job.request.cltNonce job.request.xid ∧ first.reply = some r) ∧
      (r.ret = RpcConst.atmostonceFailure → job.stat = some .forgotten) := by
  have valid : ∀ {first : Job}, first ∈ s.jobs → first.stat = some .new →
      first.reply = some r → r.xid = first.request.xid ∧
        (r.ret = RpcConst.atmostonceFailure → job.stat = some .forgotten) := by
    intro first inside ran given
    have ⟨xid, lower, _bind⟩ := (sound.jobs first inside).result ran r given
    refine ⟨xid, ?_⟩
    intro failed
    rw [failed] at lower
    exact absurd lower (by decide)
  by_cases ran : job.stat = some .new
  · have ⟨xid, failed⟩ := valid member ran replied
    exact ⟨xid, fun _ => ⟨job, member, ⟨ran, rfl, rfl⟩, replied⟩, failed⟩
  · by_cases done : job.stat = some .done
    · obtain ⟨_reply, first, inside, handled, same⟩ := sound.done job member done
      have ⟨xid, failed⟩ := valid inside handled.1 (same.trans replied)
      exact ⟨xid.trans handled.2.2, fun _ => ⟨first, inside, handled, same.trans replied⟩, failed⟩
    · have ⟨xid, negative, failed⟩ := (sound.jobs job member).refusal ran done r replied
      exact ⟨xid, fun lower => absurd lower (not_le.mpr negative), failed⟩

theorem Rpcs.sends_some {s : Rpcs} {action : RpcsAction} {c : Conn} {reply : Reply}
    (sent : (c, reply) ∈ (s.sends action).toList) :
    ∃ index job, s.jobs[index]? = some job ∧ action = .job index .send ∧ job.conn = c ∧
      job.reply = some reply := by
  unfold Rpcs.sends at sent
  split at sent
  · rename_i index
    obtain ⟨job, here, rest⟩ := Option.bind_eq_some_iff.mp (Option.mem_toList.mp sent)
    obtain ⟨reply, replied, same⟩ := Option.map_eq_some_iff.mp rest
    cases same
    exact ⟨index, job, here, rfl, rfl, replied⟩
  · cases sent

theorem Rpcs.sends_send {index : Nat} {reply : Reply} (here : s.jobs[index]? = some job)
    (replied : job.reply = some reply) : s.sends (.job index .send) = some (job.conn, reply) := by
  change (s.jobs[index]?).bind _ = _
  rw [here, Option.bind_some, replied]
  rfl

/-! ### Connections -/

/-- Every connection of a job or of `conns_` leads to the client it is kept for. -/
structure Rpcs.Owned (s : Rpcs) : Prop where
  jobs : ∀ job ∈ s.jobs, job.conn.owner = job.request.cltNonce
  conns : ∀ n c, s.conns n = some c → c.owner = n

structure Rpcs.Led (leads : Conn → UInt32 → Prop) (s : Rpcs) : Prop where
  jobs : ∀ job ∈ s.jobs, leads job.conn job.request.cltNonce
  conns : ∀ n c, s.conns n = some c → leads c n

section Led

variable {leads : Conn → UInt32 → Prop}

theorem Rpcs.Led.start (nonce : UInt32) (procs : Nat → Bool) :
    (Rpcs.start nonce procs).Led leads where
  jobs := fun _job member => absurd member List.not_mem_nil
  conns := fun _n _c known => nomatch known

theorem Rpcs.Led.gotPdu (led : s.Led leads) {c : Conn} {request : Request}
    (own : leads c request.cltNonce) :
    Rpcs.Led leads { s with jobs := s.jobs ++ [Job.start c request] } := by
  refine ⟨?_, led.conns⟩
  intro job member
  rcases List.mem_append.mp member with before | last
  · exact led.jobs job before
  · rw [List.mem_singleton.mp last]
    exact own

theorem latestConn_leads {known : Option Conn} {c : Conn} {n : UInt32} (own : leads c n)
    (before : ∀ old, known = some old → leads old n) : leads (latestConn known c) n := by
  cases known with
  | none => exact own
  | some old =>
      unfold latestConn
      dsimp only
      split
      · exact own
      · exact before old rfl

theorem Rpcs.Led.acts (led : s.Led leads) {index : Nat} (here : s.jobs[index]? = some job)
    (acts : s.Acts job action next after) :
    Rpcs.Led leads { next with jobs := s.jobs.set index after } := by
  have own := led.jobs job (List.mem_of_getElem? here)
  have jobs : leads after.conn after.request.cltNonce → ∀ other ∈ s.jobs.set index after,
      leads other.conn other.request.cltNonce := by
    intro kept other inside
    rcases List.mem_or_eq_of_mem_set inside with before | rfl
    · exact led.jobs other before
    · exact kept
  cases acts with
  | prepare queued accepted named =>
      refine ⟨jobs own, ?_⟩
      intro n c known
      change Function.update s.conns _ _ n = some c at known
      by_cases same : n = job.request.cltNonce
      · subst same
        rw [Function.update_self] at known
        cases known
        exact latestConn_leads own (led.conns _)
      · rw [Function.update_of_ne same] at known
        exact led.conns n c known
  | check admitted stat b rlist checked =>
      refine ⟨jobs ?_, led.conns⟩
      cases stat <;> exact own
  | reroute recorded c latest => exact ⟨jobs (led.conns _ c latest), led.conns⟩
  | oldServer _ _ _ | direct _ _ _ | handle _ _ _ _ _ | record _ | keep _ _ _ | send _ =>
      exact ⟨jobs own, led.conns⟩

end Led

theorem Rpcs.owned_iff_led : s.Owned ↔ s.Led (fun c n => c.owner = n) :=
  ⟨fun owned => ⟨owned.jobs, owned.conns⟩, fun led => ⟨led.jobs, led.conns⟩⟩

theorem Rpcs.Owned.start (nonce : UInt32) (procs : Nat → Bool) : (Rpcs.start nonce procs).Owned :=
  Rpcs.owned_iff_led.mpr (.start nonce procs)

theorem Rpcs.Owned.gotPdu (owned : s.Owned) {c : Conn} {request : Request}
    (own : c.owner = request.cltNonce) :
    Rpcs.Owned { s with jobs := s.jobs ++ [Job.start c request] } :=
  Rpcs.owned_iff_led.mpr ((Rpcs.owned_iff_led.mp owned).gotPdu own)

theorem Rpcs.Owned.acts (owned : s.Owned) {index : Nat} (here : s.jobs[index]? = some job)
    (acts : s.Acts job action next after) :
    Rpcs.Owned { next with jobs := s.jobs.set index after } :=
  Rpcs.owned_iff_led.mpr ((Rpcs.owned_iff_led.mp owned).acts here acts)

structure Rpcs.Entered (s : Rpcs) : Prop where
  anonymous : s.conns 0 = none
  named : ∀ job ∈ s.jobs, job.request.cltNonce ≠ 0 → job.phase = .admitted ∨ job.stat = some .new →
    s.conns job.request.cltNonce ≠ none

theorem Rpcs.Entered.start (nonce : UInt32) (procs : Nat → Bool) :
    (Rpcs.start nonce procs).Entered where
  anonymous := rfl
  named := fun _job member => absurd member List.not_mem_nil

theorem Rpcs.Entered.gotPdu (entered : s.Entered) (c : Conn) (request : Request) :
    Rpcs.Entered { s with jobs := s.jobs ++ [Job.start c request] } := by
  refine ⟨entered.anonymous, ?_⟩
  intro job member named past
  rcases List.mem_append.mp member with before | last
  · exact entered.named job before named past
  · rw [List.mem_singleton.mp last] at past
    rcases past with phase | stat
    · cases phase
    · cases stat

theorem Rpcs.Entered.acts (entered : s.Entered) {index : Nat} (here : s.jobs[index]? = some job)
    (acts : s.Acts job action next after) :
    Rpcs.Entered { next with jobs := s.jobs.set index after } := by
  have own := entered.named job (List.mem_of_getElem? here)
  have same : next.conns = s.conns →
      (after.request.cltNonce ≠ 0 → after.phase = .admitted ∨ after.stat = some .new →
        s.conns after.request.cltNonce ≠ none) →
      Rpcs.Entered { next with jobs := s.jobs.set index after } := by
    intro table kept
    refine ⟨?_, ?_⟩
    · change next.conns 0 = none
      rw [table]
      exact entered.anonymous
    · intro other inside named past
      change next.conns other.request.cltNonce ≠ none
      rw [table]
      rcases List.mem_or_eq_of_mem_set inside with before | rfl
      · exact entered.named other before named past
      · exact kept named past
  cases acts with
  | oldServer queued old other =>
      exact same rfl fun named past =>
        own named (past.elim (fun phase => nomatch phase) Or.inr)
  | direct queued accepted anonymous => exact same rfl fun named => absurd anonymous named
  | prepare queued accepted named =>
      constructor
      · change Function.update s.conns _ _ 0 = none
        rw [Function.update_of_ne (Ne.symm named)]
        exact entered.anonymous
      · intro other inside namedOther past
        change Function.update s.conns _ _ other.request.cltNonce ≠ none
        by_cases client : other.request.cltNonce = job.request.cltNonce
        · rw [client, Function.update_self]
          exact Option.some_ne_none _
        · rw [Function.update_of_ne client]
          rcases List.mem_or_eq_of_mem_set inside with before | rfl
          · exact entered.named other before namedOther past
          · exact absurd rfl client
  | check admitted stat b rlist checked =>
      refine same rfl fun named _past => ?_
      cases stat <;> exact own named (.inl admitted)
  | handle running ret body valid bind =>
      refine same rfl fun named past => own named (.inr ?_)
      rcases past with phase | stat
      · change (if job.request.cltNonce = 0 then Phase.recorded else .returned) = .admitted at phase
        split at phase <;> cases phase
      · exact stat
  | record returned =>
      exact same rfl fun named past => own named (past.elim (fun phase => nomatch phase) Or.inr)
  | keep recorded isdead good =>
      exact same rfl fun named past => own named (past.elim (fun phase => nomatch phase) Or.inr)
  | reroute recorded c latest =>
      exact same rfl fun named past => own named (past.elim (fun phase => nomatch phase) Or.inr)
  | send sending =>
      exact same rfl fun named past => own named (past.elim (fun phase => nomatch phase) Or.inr)

end CseLab.Rpc
