import CseLab.Lib.Loop
import CseLab.Rpc.PollMgr

/-! `SelectAIO` over calls of `watch_fd` and `unwatch_fd` with any flags: how far
`select` has to look, and what `wait_ready` finds. -/

namespace CseLab.Rpc

open Transition

/-! ### Flags -/

def cbRdonly : BitVec 32 := 0x1

def cbWronly : BitVec 32 := 0x10

def cbRdwr : BitVec 32 := 0x11

def cbMask : BitVec 32 := ~~~0x11

def PollFlag.code : PollFlag → BitVec 32
  | .rdonly => cbRdonly
  | .wronly => cbWronly
  | .rdwr => cbRdwr

/-- What `watch_fd` and `is_watched` take a flag for. -/
def watchFlag (flag : BitVec 32) : PollFlag :=
  if flag = cbRdonly then .rdonly else if flag = cbWronly then .wronly else .rdwr

def unwatchFlag (flag : BitVec 32) : Option PollFlag :=
  if flag = cbRdonly then some .rdonly
  else if flag = cbWronly then some .wronly
  else if flag = cbRdwr then some .rdwr
  else none

@[simp] theorem watchFlag_code (flag : PollFlag) : watchFlag flag.code = flag := by
  cases flag <;> rfl

@[simp] theorem unwatchFlag_code (flag : PollFlag) : unwatchFlag flag.code = some flag := by
  cases flag <;> rfl

theorem PollFlag.covers_some (flag : PollFlag) : ∃ kind, flag.covers kind = true := by
  cases flag with
  | rdonly => exact ⟨.read, rfl⟩
  | wronly => exact ⟨.write, rfl⟩
  | rdwr => exact ⟨.read, rfl⟩

/-! ### Calls -/

inductive PollCall where
  | watch (fd : Nat) (flag : BitVec 32)
  | unwatch (fd : Nat) (flag : BitVec 32)
deriving DecidableEq

def PollCall.fd : PollCall → Nat
  | .watch fd _ => fd
  | .unwatch fd _ => fd

def PollCall.flag : PollCall → BitVec 32
  | .watch _ flag => flag
  | .unwatch _ flag => flag

/-! ### What the callers asked for -/

/-- The directions of each descriptor that are watched. -/
abbrev Interest := Nat → Callback → Bool

def PollFlag.added (direction : PollFlag) (asked : Callback → Bool) : Callback → Bool :=
  fun kind => asked kind || direction.covers kind

def PollFlag.removed (direction : PollFlag) (asked : Callback → Bool) : Callback → Bool :=
  fun kind => asked kind && !direction.covers kind

namespace Interest

def nothing : Interest := fun _ _ => false

def call (asked : Interest) : PollCall → Interest
  | .watch fd flag => Function.update asked fd ((watchFlag flag).added (asked fd))
  | .unwatch fd flag =>
      match unwatchFlag flag with
      | none => asked
      | some direction => Function.update asked fd (direction.removed (asked fd))

def after (calls : List PollCall) : Interest := calls.foldl call nothing

end Interest

namespace SelectAio

def watch (aio : SelectAio) (fd : Nat) (flag : BitVec 32) : SelectAio :=
  aio.watchFd fd (watchFlag flag)

/-- `none` is the `VERIFY` of a flag that is no direction. -/
def unwatch (aio : SelectAio) (fd : Nat) (flag : BitVec 32) : Option (Bool × SelectAio) :=
  (unwatchFlag flag).map (aio.unwatchFd fd)

def isWatched (aio : SelectAio) (fd : Nat) (flag : BitVec 32) : Bool :=
  match watchFlag flag with
  | .rdonly => aio.rfds fd
  | .wronly => aio.wfds fd
  | .rdwr => aio.rfds fd && aio.wfds fd

def call (aio : SelectAio) : PollCall → Option SelectAio
  | .watch fd flag => some (aio.watch fd flag)
  | .unwatch fd flag => (aio.unwatch fd flag).map Prod.snd

def selectLeaves (asked isReady : Nat → Bool) (high : Nat) (fd : Nat) : Bool :=
  asked fd && decide (fd ≤ high) && isReady fd

def waitReady (aio : SelectAio) (reading writing : Nat → Bool) (kind : Callback) : List Nat :=
  ready aio.pipefd aio.highfds kind (selectLeaves aio.rfds reading aio.highfds)
    (selectLeaves aio.wfds writing aio.highfds)

/-! ### The sets and the calls -/

/-- The sets are what the callers asked for, apart from the pipe, which none of them names. -/
structure Shows (aio : SelectAio) (pipefd : Nat) (asked : Interest) : Prop where
  pipe : aio.pipefd = pipefd
  fds : ∀ fd, fd ≠ pipefd → ∀ kind, aio.fds kind fd = asked fd kind

section Shows

variable {aio : SelectAio} {pipefd : Nat} {asked : Interest}

theorem Shows.watch (shown : aio.Shows pipefd asked) (fd : Nat) (flag : BitVec 32) :
    (aio.watch fd flag).Shows pipefd (asked.call (.watch fd flag)) := by
  constructor
  · exact shown.pipe
  · intro other notPipe kind
    have was := shown.fds other notPipe kind
    change (aio.watchFd fd (watchFlag flag)).fds kind other =
      Function.update asked fd ((watchFlag flag).added (asked fd)) other kind
    rw [fds_watchFd]
    by_cases same : other = fd
    · subst same
      rw [Function.update_self, PollFlag.added, ← was]
      cases (watchFlag flag).covers kind <;> simp
    · rw [Function.update_of_ne same, ← was]
      split
      · rw [Function.update_of_ne same]
      · rfl

theorem Shows.unwatchFd (shown : aio.Shows pipefd asked) (fd : Nat) (direction : PollFlag) :
    (aio.unwatchFd fd direction).2.Shows pipefd
      (Function.update asked fd (direction.removed (asked fd))) := by
  constructor
  · exact shown.pipe
  · intro other notPipe kind
    have was := shown.fds other notPipe kind
    rw [fds_unwatchFd]
    by_cases same : other = fd
    · subst same
      rw [Function.update_self, PollFlag.removed, ← was]
      cases direction.covers kind <;> simp
    · rw [Function.update_of_ne same, ← was]
      split
      · rw [Function.update_of_ne same]
      · rfl

theorem Shows.call {next : SelectAio} {call : PollCall} (shown : aio.Shows pipefd asked)
    (called : aio.call call = some next) : next.Shows pipefd (asked.call call) := by
  cases call with
  | watch fd flag =>
      cases called
      exact shown.watch fd flag
  | unwatch fd flag =>
      obtain ⟨answered, unwatched, rfl⟩ := Option.map_eq_some_iff.mp called
      obtain ⟨direction, accepted, rfl⟩ := Option.map_eq_some_iff.mp unwatched
      rw [Interest.call, accepted]
      exact shown.unwatchFd fd direction

theorem Shows.run {calls : List PollCall} {final : SelectAio} (shown : aio.Shows pipefd asked)
    (ran : run SelectAio.call aio calls = some final) :
    final.Shows pipefd (calls.foldl Interest.call asked) := by
  induction calls generalizing aio asked with
  | nil =>
      cases ran
      exact shown
  | cons call rest ih =>
      obtain ⟨next, called, tail⟩ := run_cons_eq_some ran
      exact ih (shown.call called) tail

theorem Shows.start (pipefd : Nat) : (start pipefd).Shows pipefd Interest.nothing where
  pipe := rfl
  fds := by
    intro fd notPipe kind
    cases kind with
    | read => exact decide_eq_false notPipe
    | write => rfl

end Shows

/-! ### How far `select` has to look -/

def watched (aio : SelectAio) : Set Nat := {fd | aio.rfds fd = true ∨ aio.wfds fd = true}

theorem mem_watched {aio : SelectAio} {fd : Nat} :
    fd ∈ aio.watched ↔ ∃ kind, aio.fds kind fd = true := by
  constructor
  · rintro (reading | writing)
    · exact ⟨.read, reading⟩
    · exact ⟨.write, writing⟩
  · rintro ⟨kind, asked⟩
    cases kind with
    | read => exact .inl asked
    | write => exact .inr asked

theorem idle_eq_false {aio : SelectAio} {fd : Nat} : aio.idle fd = false ↔ fd ∈ aio.watched := by
  change (!aio.rfds fd && !aio.wfds fd) = false ↔ aio.rfds fd = true ∨ aio.wfds fd = true
  cases aio.rfds fd <;> simp

/-- The read end of the pipe is watched, and no descriptor above `highfds_` is. -/
structure Covered (aio : SelectAio) : Prop where
  pipe : aio.rfds aio.pipefd = true
  high : IsGreatest aio.watched aio.highfds

theorem covered_start (pipefd : Nat) : (start pipefd).Covered := by
  constructor
  · exact decide_eq_true rfl
  · constructor
    · exact .inl (decide_eq_true rfl)
    · rintro fd (reading | writing)
      · exact Nat.le_of_eq (of_decide_eq_true reading)
      · cases writing

theorem watched_watchFd (aio : SelectAio) (fd : Nat) (flag : PollFlag) :
    (aio.watchFd fd flag).watched = insert fd aio.watched := by
  ext other
  rw [Set.mem_insert_iff, mem_watched, mem_watched]
  simp only [fds_watchFd]
  by_cases same : other = fd
  · subst same
    obtain ⟨kind, covered⟩ := flag.covers_some
    exact iff_of_true ⟨kind, by rw [if_pos covered, Function.update_self]⟩ (.inl rfl)
  · rw [or_iff_right same]
    apply exists_congr
    intro kind
    split
    · rw [Function.update_of_ne same]
    · rfl

theorem covered_watchFd {aio : SelectAio} (covered : aio.Covered) (fd : Nat) (flag : PollFlag) :
    (aio.watchFd fd flag).Covered := by
  have highest : (aio.watchFd fd flag).highfds = max fd aio.highfds := by
    change (if aio.highfds ≤ fd then fd else aio.highfds) = _
    split <;> omega
  constructor
  · change (aio.watchFd fd flag).fds .read aio.pipefd = true
    rw [fds_watchFd]
    have pipe : aio.fds .read aio.pipefd = true := covered.pipe
    split
    · rw [Function.update_apply, pipe, ite_self]
    · exact pipe
  · rw [watched_watchFd, highest]
    exact covered.high.insert fd

theorem watched_clearFd (aio : SelectAio) (fd : Nat) (flag : PollFlag) {other : Nat}
    (different : other ≠ fd) : other ∈ (aio.clearFd fd flag).watched ↔ other ∈ aio.watched := by
  have same : ∀ kind, (aio.clearFd fd flag).fds kind other = aio.fds kind other := by
    intro kind
    have cleared := fds_unwatchFd aio fd flag kind
    change (aio.clearFd fd flag).fds kind = _ at cleared
    rw [cleared]
    split
    · rw [Function.update_of_ne different]
    · rfl
  simp only [mem_watched, same]

theorem watched_clearFd_subset (aio : SelectAio) (fd : Nat) (flag : PollFlag) :
    (aio.clearFd fd flag).watched ⊆ aio.watched := by
  intro other
  rw [mem_watched, mem_watched]
  rintro ⟨kind, asked⟩
  refine ⟨kind, ?_⟩
  by_contra unasked
  rw [Bool.not_eq_true] at unasked
  exact Bool.false_ne_true ((fds_unwatchFd_false unasked fd flag).symm.trans asked)

/-- The rescan finds the greatest descriptor still watched. -/
theorem newHigh_greatest {aio : SelectAio} (pipe : aio.rfds aio.pipefd = true)
    (bounded : ∀ fd ∈ aio.watched, fd ≤ aio.highfds) : IsGreatest aio.watched aio.newHigh := by
  have body : aio.newHigh = (List.range (aio.highfds + 1)).foldl
      (fun newh i => if aio.rfds i || aio.wfds i then i else newh) aio.pipefd := by
    unfold newHigh
    congr
    funext newh i
    cases aio.rfds i <;> rfl
  have members : aio.watched =
      {fd | fd < aio.highfds + 1 ∧ (aio.rfds fd || aio.wfds fd) = true} := by
    ext fd
    rw [Set.mem_ofPred_eq, Bool.or_eq_true]
    exact ⟨fun inside => ⟨Nat.lt_succ_of_le (bounded fd inside), inside⟩, And.right⟩
  rw [body, members]
  rcases Loop.foldl_last (fun i => aio.rfds i || aio.wfds i) aio.pipefd (aio.highfds + 1) with
    greatest | none
  · exact greatest
  · have below := Nat.lt_succ_of_le (bounded aio.pipefd (.inl pipe))
    have missing := none aio.pipefd below
    simp [pipe] at missing

theorem covered_unwatchFd {aio : SelectAio} (covered : aio.Covered) {fd : Nat} (flag : PollFlag)
    (notPipe : fd ≠ aio.pipefd) : (aio.unwatchFd fd flag).2.Covered := by
  have pipe : (aio.clearFd fd flag).rfds aio.pipefd = true := by
    change (if flag.covers .read then Function.update aio.rfds fd false else aio.rfds) _ = true
    split
    · rw [Function.update_of_ne notPipe.symm]
      exact covered.pipe
    · exact covered.pipe
  have bounded : ∀ other ∈ (aio.clearFd fd flag).watched, other ≤ aio.highfds :=
    fun other inside => covered.high.2 (watched_clearFd_subset aio fd flag inside)
  constructor
  · exact pipe
  · change IsGreatest (aio.clearFd fd flag).watched
      (if (aio.clearFd fd flag).idle fd = true ∧ fd = aio.highfds then
        (aio.clearFd fd flag).newHigh else aio.highfds)
    split
    · exact newHigh_greatest pipe bounded
    · rename_i kept
      refine ⟨?_, bounded⟩
      -- a descriptor still watched in one direction stays the highest one
      by_cases highest : fd = aio.highfds
      · rw [← highest, ← idle_eq_false, ← Bool.not_eq_true]
        exact fun idle => kept ⟨idle, highest⟩
      · exact (watched_clearFd aio fd flag (Ne.symm highest)).mpr covered.high.1

theorem mem_waitReady {aio : SelectAio} (covered : aio.Covered) (reading writing : Nat → Bool)
    (kind : Callback) {fd : Nat} (notPipe : fd ≠ aio.pipefd) :
    fd ∈ aio.waitReady reading writing kind ↔
      aio.fds kind fd = true ∧ kind.pick reading writing fd = true := by
  have below : aio.fds kind fd = true → fd ≤ aio.highfds :=
    fun asked => covered.high.2 (mem_watched.mpr ⟨kind, asked⟩)
  have leaves : kind.pick (selectLeaves aio.rfds reading aio.highfds)
      (selectLeaves aio.wfds writing aio.highfds) fd =
        selectLeaves (aio.fds kind) (kind.pick reading writing) aio.highfds fd := by
    cases kind <;> rfl
  unfold waitReady ready
  rw [List.mem_filter, List.mem_range, leaves, decide_eq_false notPipe]
  simp only [selectLeaves, Bool.false_and, Bool.not_false, Bool.and_true, Bool.and_eq_true,
    decide_eq_true_eq]
  constructor
  · exact fun found => ⟨found.2.1.1, found.2.2⟩
  · exact fun found => ⟨Nat.lt_succ_of_le (below found.1), ⟨found.1, below found.1⟩, found.2⟩

/-! ### Runs -/

theorem call_pipefd {aio next : SelectAio} {call : PollCall} (called : aio.call call = some next) :
    next.pipefd = aio.pipefd := by
  cases call with
  | watch fd flag =>
      cases called
      rfl
  | unwatch fd flag =>
      simp only [SelectAio.call, unwatch, Option.map_map, Option.map_eq_some_iff] at called
      rcases called with ⟨direction, -, rfl⟩
      rfl

theorem covered_call {aio next : SelectAio} {call : PollCall} (covered : aio.Covered)
    (notPipe : call.fd ≠ aio.pipefd) (called : aio.call call = some next) : next.Covered := by
  cases call with
  | watch fd flag =>
      cases called
      exact covered_watchFd covered fd (watchFlag flag)
  | unwatch fd flag =>
      simp only [SelectAio.call, unwatch, Option.map_map, Option.map_eq_some_iff] at called
      rcases called with ⟨direction, -, rfl⟩
      exact covered_unwatchFd covered direction notPipe

theorem covered_run {pipefd : Nat} {calls : List PollCall} {aio : SelectAio}
    (callers : ∀ call ∈ calls, call.fd ≠ pipefd)
    (ran : run call (start pipefd) calls = some aio) : aio.Covered ∧ aio.pipefd = pipefd := by
  have guarded : Guarded SelectAio.call (fun _aio call => call.fd ≠ pipefd) (start pipefd) calls :=
    Guarded.ofForall callers
  have preserved : ∀ state action next, (state.Covered ∧ state.pipefd = pipefd) →
      action.fd ≠ pipefd → SelectAio.call state action = some next →
      next.Covered ∧ next.pipefd = pipefd := by
    intro state action next was notPipe called
    exact ⟨covered_call was.1 (by rw [was.2]; exact notPipe) called,
      (call_pipefd called).trans was.2⟩
  exact guarded.invariant preserved ⟨covered_start pipefd, rfl⟩ ran

/-- `highfds_` is the greatest of the pipe and the watched descriptors, the answer
of `unwatch_fd` says whether the descriptor is still watched, `wait_ready` reports
every watched descriptor that is ready, and those are watched that the calls asked for. -/
theorem select_covers_watched {pipefd : Nat} {calls : List PollCall} {aio : SelectAio}
    (callers : ∀ call ∈ calls, call.fd < maxPollFds ∧ call.fd ≠ pipefd)
    (ran : run call (start pipefd) calls = some aio) :
    IsGreatest {fd | fd = pipefd ∨ aio.rfds fd = true ∨ aio.wfds fd = true} aio.highfds ∧
      (∀ fd flag answer next, aio.unwatch fd flag = some (answer, next) →
        (answer = true ↔ next.rfds fd = false ∧ next.wfds fd = false)) ∧
      (∀ reading writing kind fd, fd ≠ pipefd →
        (fd ∈ aio.waitReady reading writing kind ↔
          aio.fds kind fd = true ∧ kind.pick reading writing fd = true)) ∧
      ∀ kind fd, fd ≠ pipefd → aio.fds kind fd = Interest.after calls fd kind := by
  obtain ⟨covered, pipe⟩ := covered_run (fun call member => (callers call member).2) ran
  have members : {fd | fd = pipefd ∨ aio.rfds fd = true ∨ aio.wfds fd = true} = aio.watched := by
    ext fd
    constructor
    · rintro (rfl | inside)
      · exact .inl (pipe ▸ covered.pipe)
      · exact inside
    · exact .inr
  refine ⟨members ▸ covered.high, ?_, ?_,
    fun kind fd notPipe => ((Shows.start pipefd).run ran).fds fd notPipe kind⟩
  · intro fd flag answer next unwatched
    simp only [unwatch, Option.map_eq_some_iff] at unwatched
    rcases unwatched with ⟨direction, -, same⟩
    cases same
    change ((!_ && !_) = true) ↔ _
    rw [Bool.and_eq_true, Bool.not_eq_true', Bool.not_eq_true']
  · intro reading writing kind fd notPipe
    rw [← pipe] at notPipe
    exact mem_waitReady covered reading writing kind notPipe

theorem select_covers_watched_sample :
    ∃ aio, run call (start 3)
        [.watch 7 cbRdonly, .watch 5 cbMask, .watch 7 cbWronly, .unwatch 7 cbRdwr] = some aio ∧
      IsGreatest {fd | fd = 3 ∨ aio.rfds fd = true ∨ aio.wfds fd = true} aio.highfds ∧
      (∀ fd flag answer next, aio.unwatch fd flag = some (answer, next) →
        (answer = true ↔ next.rfds fd = false ∧ next.wfds fd = false)) ∧
      (∀ reading writing kind fd, fd ≠ 3 →
        (fd ∈ aio.waitReady reading writing kind ↔
          aio.fds kind fd = true ∧ kind.pick reading writing fd = true)) ∧
      ∀ kind fd, fd ≠ 3 → aio.fds kind fd = Interest.after
        [.watch 7 cbRdonly, .watch 5 cbMask, .watch 7 cbWronly, .unwatch 7 cbRdwr] fd kind := by
  have callers : ∀ call ∈ [PollCall.watch 7 cbRdonly, .watch 5 cbMask, .watch 7 cbWronly,
      .unwatch 7 cbRdwr], call.fd < maxPollFds ∧ call.fd ≠ 3 := by
    decide
  exact ⟨_, rfl, select_covers_watched callers rfl⟩

end SelectAio

end CseLab.Rpc
