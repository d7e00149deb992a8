import CseLab.Rpc.Deployment

/-! Where the handlers of an instance do not overlap, its object is that of the handlers
that have returned, one after another, and of what the one in progress has done so far. -/

namespace CseLab.Rpc

open Interleaving Transition

variable {Obj Op Answer Uninit : Type} {act : Obj → Op → Obj × Answer}
  {service : Nat → Option (Handler act Uninit)} {d next : Deployment Obj Op Answer Uninit}
  {m : UInt32}

/-! ### Replaying a history -/

def Event.replay (service : Nat → Option (Handler act Uninit)) (m : UInt32) (obj : Obj) :
    Event Uninit → Option Obj
  | .executed other request found ret body =>
      if other = m then do
        let h ← registered service m request.proc
        let (obj, sameRet, sameBody) ← h.toProcedure.execute found obj request
        if sameRet = ret ∧ sameBody = body then some obj else none
      else some obj
  | .called _ | .returned _ => some obj

/-- A history, executed from the start in its own order. -/
def replay (service : Nat → Option (Handler act Uninit)) (m : UInt32) (obj : Obj)
    (history : List (Event Uninit)) : Option Obj :=
  history.foldlM (fun obj event => event.replay service m obj) obj

theorem replay_append (m : UInt32) (obj : Obj) (first second : List (Event Uninit)) :
    replay service m obj (first ++ second) =
      (replay service m obj first).bind fun obj => replay service m obj second :=
  List.foldlM_append

def Event.Of (m : UInt32) : Event Uninit → Prop
  | .executed other _ _ _ _ => other = m
  | .called _ | .returned _ => False

theorem replay_others {events : List (Event Uninit)} (others : ∀ event ∈ events, ¬event.Of m)
    (obj : Obj) : replay service m obj events = some obj := by
  induction events with
  | nil => rfl
  | cons event rest ih =>
      have first : event.replay service m obj = some obj := by
        cases event with
        | executed other request found ret body =>
            exact if_neg (others _ List.mem_cons_self)
        | called _ | returned _ => rfl
      unfold replay at ih ⊢
      rw [List.foldlM_cons, first]
      exact ih (fun later member => others later (List.mem_cons_of_mem event member))

theorem replay_executed {request : Request} {h : Handler act Uninit}
    (handler : registered service m request.proc = some h) {found : Found Uninit} {obj after : Obj}
    {ret : Int} {body : List UInt8}
    (executes : h.toProcedure.execute found obj request = some (after, ret, body)) :
    replay service m obj [.executed m request found ret body] = some after := by
  simp only [replay, List.foldlM_cons, List.foldlM_nil, Event.replay, if_true, handler, executes,
    Option.bind_eq_bind, Option.bind_some, and_self, Option.pure_def]

theorem Network.mem_events {s : Network} {action : NetworkAction} {event : Event Uninit}
    (member : event ∈ s.events action) :
    (∃ n proc args c request, action = .call n proc args ∧
        (s.clients n).call1 proc args = .ok (c, request) ∧ event = .called request) ∨
      ∃ n xid c ret body, action = .leave n xid ∧
        (s.clients n).leave xid = some (c, ret, body) ∧
        event = .returned { cltNonce := n, xid := xid, ret := ret, body := body } := by
  cases action with
  | call n proc args =>
      dsimp only [Network.events] at member
      split at member
      · exact absurd member List.not_mem_nil
      · rename_i c request called
        exact .inl ⟨n, proc, args, c, request, rfl, called, List.mem_singleton.mp member⟩
  | leave n xid =>
      dsimp only [Network.events] at member
      split at member
      · exact absurd member List.not_mem_nil
      · rename_i c ret body left
        exact .inr ⟨n, xid, c, ret, body, rfl, left, List.mem_singleton.mp member⟩
  | cancel _ | bind _ | request _ _ _ | reply _ | job _ _ _ => exact absurd member List.not_mem_nil

theorem Network.events_others {s : Network} {action : NetworkAction} {event : Event Uninit}
    (member : event ∈ s.events action) : ¬event.Of m := by
  rcases Network.mem_events member with ⟨_n, _proc, _args, _c, _request, -, -, rfl⟩ |
    ⟨_n, _xid, _c, _ret, _body, -, -, rfl⟩ <;> exact not_false

/-! ### Jobs in their handlers -/

theorem Network.Steps.server {s after : Network} {action : NetworkAction}
    (steps : s.Steps action after) (m : UInt32) :
    after.servers m = s.servers m ∨
      (∃ c request, (s.servers m).step (.gotPdu c request) = some (after.servers m)) ∨
      ∃ index act, action = .job m index act ∧
        (s.servers m).step (.job index act) = some (after.servers m) := by
  cases steps with
  | refused _ _ _ | call _ _ _ _ _ _ _ | leave _ _ _ _ _ _ _ | cancel _ | bind _ _ _ _
  | reply _ _ _ _ => exact .inl rfl
  | request other index c named request member owned server taken =>
      change Function.update s.servers other server m = s.servers m ∨ _
      by_cases same : m = other
      · subst same
        refine .inr (.inl ⟨c, request, ?_⟩)
        change _ = some (Function.update s.servers m server m)
        rw [Function.update_self]
        exact taken
      · exact .inl (Function.update_of_ne same _ _)
  | job other index act server taken =>
      change Function.update s.servers other server m = s.servers m ∨ _
      by_cases same : m = other
      · subst same
        refine .inr (.inr ⟨index, act, rfl, ?_⟩)
        change _ = some (Function.update s.servers m server m)
        rw [Function.update_self]
        exact taken
      · exact .inl (Function.update_of_ne same _ _)

/-- A job in its handler stays there until the handler returns. -/
theorem Network.Steps.running {s after : Network} {action : NetworkAction}
    (steps : s.Steps action after) {index : Nat} {job : Job}
    (here : (s.servers m).jobs[index]? = some job) (running : job.phase = .running)
    (others : ∀ ret body, action ≠ .job m index (.handle ret body)) :
    (after.servers m).jobs[index]? = some job := by
  rcases steps.server m with same | ⟨c, request, taken⟩ | ⟨other, jobAction, rfl, taken⟩
  · rw [same]
    exact here
  · rw [← Option.some.inj taken]
    dsimp only
    rw [List.getElem?_append_left (List.getElem?_eq_some_iff.mp here).1]
    exact here
  · obtain ⟨moving, shared, moved, there, acts, same⟩ := Rpcs.step_job taken
    rw [same]
    dsimp only
    by_cases own : other = index
    · subst own
      cases here.symm.trans there
      cases acts with
      | handle _ ret body _ _ => exact absurd rfl (others ret body)
      | oldServer phase _ _ | direct phase _ _ | prepare phase _ _ | check phase _ _ _ _
      | record phase | keep phase _ _ | reroute phase _ _ | send phase =>
          exact Phase.noConfusion (running.symm.trans phase)
    · rw [List.getElem?_set_ne own]
      exact here

/-! ### One handler at a time -/

def Deployment.Enters (safe : Obj → Found Uninit → Request → Prop)
    (d : Deployment Obj Op Answer Uninit) : DeploymentAction Uninit → Prop
  | .enter m index found => ∀ job, (d.network.servers m).jobs[index]? = some job →
      safe (d.objects m) found job.request
  | .network _ | .access _ _ | .handle _ _ => True

/-- The object of an instance was `before` when its last handler returned; if one is in
progress, it will do on its own what it does to `before`. -/
inductive Serving (service : Nat → Option (Handler act Uninit))
    (safe : Obj → Found Uninit → Request → Prop) (d : Deployment Obj Op Answer Uninit) (m : UInt32)
    (before : Obj) : Prop
  | idle (free : ∀ index, d.running m index = none) (same : d.objects m = before)
  | busy (index : Nat) (job : Job) (here : (d.network.servers m).jobs[index]? = some job)
      (phase : job.phase = .running) (found : Found Uninit)
      (script : Script Op Answer (Int × List UInt8))
      (there : d.running m index = some (found, script))
      (only : ∀ other, other ≠ index → d.running m other = none) (h : Handler act Uninit)
      (handler : registered service m job.request.proc = some h)
      (goes : script.alone act (d.objects m) = h.toProcedure.execute found before job.request)
      (met : safe before found job.request)

variable {safe : Obj → Found Uninit → Request → Prop} {before : Obj}

theorem Serving.stop (serving : Serving service safe d m before)
    (free : ∀ index, d.running m index = none) : d.objects m = before := by
  cases serving with
  | idle _ same => exact same
  | busy index _ _ _ _ _ there _ _ _ _ _ =>
      rw [free index] at there
      cases there

theorem Serving.frame (serving : Serving service safe d m before)
    (objects : next.objects m = d.objects m) (running : next.running m = d.running m)
    (stays : ∀ (index : Nat) (job : Job), (d.network.servers m).jobs[index]? = some job →
      job.phase = .running → (d.running m index).isSome →
      (next.network.servers m).jobs[index]? = some job) :
    Serving service safe next m before := by
  cases serving with
  | idle free same => exact .idle (running ▸ free) (objects.trans same)
  | busy index job here phase found script there only h handler goes met =>
      refine .busy index job (stays index job here phase (there ▸ rfl)) phase found script
        (running ▸ there) (running ▸ only) h handler ?_ met
      rw [objects]
      exact goes

/-- The last access of a handler has been made, and it returns. -/
structure Ends (service : Nat → Option (Handler act Uninit))
    (safe : Obj → Found Uninit → Request → Prop) (d next : Deployment Obj Op Answer Uninit)
    (m : UInt32) (before : Obj) (request : Request) (found : Found Uninit) (ret : Int)
    (body : List UInt8) : Prop where
  executes : ∃ h, registered service m request.proc = some h ∧
    h.toProcedure.execute found before request = some (next.objects m, ret, body)
  met : safe before found request
  history : next.history = d.history ++ [.executed m request found ret body]
  idle : ∀ index, next.running m index = none

/-- The handler that is in progress, when one is. -/
theorem Serving.inside (serving : Serving service safe d m before) {index : Nat}
    {found : Found Uninit} {script : Script Op Answer (Int × List UInt8)}
    (there : d.running m index = some (found, script)) :
    (∀ other, other ≠ index → d.running m other = none) ∧
      ∃ job h, (d.network.servers m).jobs[index]? = some job ∧ job.phase = .running ∧
        registered service m job.request.proc = some h ∧
        script.alone act (d.objects m) = h.toProcedure.execute found before job.request ∧
        safe before found job.request := by
  cases serving with
  | idle free _ =>
      rw [free index] at there
      cases there
  | busy own job here phase found' script' running only h handler goes met =>
      have same : index = own := by
        by_contra apart
        rw [only index apart] at there
        cases there
      subst same
      cases there.symm.trans running
      exact ⟨only, job, h, here, phase, handler, goes, met⟩

theorem Serving.enter (serving : Serving service safe d m before)
    (free : ∀ index, d.running m index = none) {index : Nat} {job : Job}
    (here : (d.network.servers m).jobs[index]? = some job) (phase : job.phase = .running)
    {h : Handler act Uninit} (handler : registered service m job.request.proc = some h)
    {found : Found Uninit} (met : safe (d.objects m) found job.request) :
    Serving service safe (d.setRunning m index (some (found, h.execute found job.request))) m
      before := by
  have same : d.objects m = before := serving.stop free
  refine .busy index job here phase found _ (d.setRunning_self m index _) ?_ h handler ?_ ?_
  · intro other apart
    exact (d.setRunning_job m index _ apart).trans (free other)
  · rw [h.alone_execute, ← same]
    rfl
  · exact same ▸ met

theorem Serving.access (serving : Serving service safe d m before) {index : Nat}
    {found : Found Uninit} {op : Op} {rest : Answer → Script Op Answer (Int × List UInt8)}
    (here : d.running m index = some (found, .call op rest)) :
    Serving service safe
      { d.setRunning m index (some (found, rest (act (d.objects m) op).2)) with
        objects := Function.update d.objects m (act (d.objects m) op).1 } m before := by
  obtain ⟨only, job, h, there, phase, handler, goes, met⟩ := serving.inside here
  refine .busy index job there phase found _ (d.setRunning_self m index _) ?_ h handler ?_ met
  · intro other apart
    exact (d.setRunning_job m index _ apart).trans (only other apart)
  · dsimp only
    rw [Function.update_self]
    exact goes

theorem Serving.handle (serving : Serving service safe d m before) {index : Nat}
    {found : Found Uninit} {ret : Int} {body : List UInt8}
    (returns : d.running m index = some (found, .ret (ret, body))) {job : Job}
    (here : (d.network.servers m).jobs[index]? = some job) (network : Network) :
    Ends service safe d
      { d.setRunning m index none with
        network := network
        history := d.history ++ [.executed m job.request found ret body] }
      m before job.request found ret body := by
  obtain ⟨only, same, h, there, -, handler, goes, met⟩ := serving.inside returns
  cases here.symm.trans there
  refine ⟨⟨h, handler, goes.symm⟩, met, rfl, fun other => ?_⟩
  by_cases own : other = index
  · exact own ▸ d.setRunning_self m index none
  · exact (d.setRunning_job m index none own).trans (only other own)

theorem Serving.step (serving : Serving service safe d m before)
    {action : DeploymentAction Uninit} (apart : d.Apart action) (enters : d.Enters safe action)
    (taken : d.step service action = some next) :
    (Serving service safe next m before ∧
        ∃ more, next.history = d.history ++ more ∧ ∀ event ∈ more, ¬event.Of m) ∨
      ∃ request found ret body, Ends service safe d next m before request found ret body := by
  cases Deployment.step_cases taken with
  | network action plain network stepped =>
      refine .inl ⟨serving.frame rfl rfl ?_, _, rfl, fun _event => Network.events_others⟩
      intro index job here phase _inside
      refine (Network.step_cases stepped).running here phase ?_
      rintro ret body rfl
      cases plain
  | enter other index found job here h handler phase free =>
      refine .inl ⟨?_, [], (List.append_nil _).symm, fun _event => List.not_mem_nil.elim⟩
      by_cases same : m = other
      · subst same
        -- the guard says that no other job of the instance is in its handler
        have free : ∀ index, d.running m index = none := by
          intro other
          cases there : d.running m other with
          | none => rfl
          | some entry =>
              obtain ⟨-, job, -, here, -⟩ := serving.inside there
              rw [apart other (List.getElem?_eq_some_iff.mp here).1] at there
              cases there
        exact serving.enter free here phase handler (enters job here)
      · exact serving.frame rfl (d.setRunning_instance other index _ same)
          (fun _index _job here _phase _inside => here)
  | access other index found op rest here =>
      refine .inl ⟨?_, [], (List.append_nil _).symm, fun _event => List.not_mem_nil.elim⟩
      by_cases same : m = other
      · subst same
        exact serving.access here
      · exact serving.frame (Function.update_of_ne same _ _)
          (d.setRunning_instance other index _ same)
          (fun _index _job here _phase _inside => here)
  | handle other index found ret body returns job here network stepped =>
      by_cases same : m = other
      · subst same
        exact .inr ⟨job.request, found, ret, body, serving.handle returns here network⟩
      · refine .inl ⟨serving.frame rfl (d.setRunning_instance other index none same) ?_, _, rfl, ?_⟩
        · intro _index job there phase _inside
          refine (Network.step_cases stepped).running there phase ?_
          intro ret' body' own
          cases own
          exact same rfl
        · intro event member
          cases List.mem_singleton.mp member
          exact fun own => same own.symm

/-! ### Runs -/

/-- The handlers that have returned are a sequence of calls of the object, and it is
what they leave, up to what the one in progress has done. -/
def Deployment.Serial (service : Nat → Option (Handler act Uninit))
    (safe : Obj → Found Uninit → Request → Prop) (obj : Obj)
    (d : Deployment Obj Op Answer Uninit) : Prop :=
  ∀ m, ∃ before, replay service m obj d.history = some before ∧ Serving service safe d m before

theorem Deployment.Serial.start (obj : Obj) :
    (Deployment.start service obj).Serial service safe obj :=
  fun _m => ⟨obj, rfl, .idle (fun _index => rfl) rfl⟩

theorem Deployment.Serial.step {obj : Obj} (serial : d.Serial service safe obj)
    {action : DeploymentAction Uninit} (apart : d.Apart action) (enters : d.Enters safe action)
    (taken : d.step service action = some next) : next.Serial service safe obj := by
  intro m
  obtain ⟨before, replayed, serving⟩ := serial m
  rcases serving.step apart enters taken with
    ⟨serving, more, history, others⟩ | ⟨request, found, ret, body, ends⟩
  · refine ⟨before, ?_, serving⟩
    rw [history, replay_append, replayed, Option.bind_some, replay_others others]
  · obtain ⟨h, handler, executes⟩ := ends.executes
    refine ⟨next.objects m, ?_, .idle ends.idle rfl⟩
    rw [ends.history, replay_append, replayed, Option.bind_some, replay_executed handler executes]

theorem Deployment.Serial.replays {obj : Obj} {actions : List (DeploymentAction Uninit)}
    (apart : Guarded (Deployment.step service) Deployment.Apart (.start service obj) actions)
    (ran : run (Deployment.step service) (.start service obj) actions = some d) (m : UInt32) :
    ∃ before, replay service m obj d.history = some before ∧
      ((∀ index, d.running m index = none) → d.objects m = before) := by
  have serial : d.Serial service (fun _obj _found _request => True) obj := by
    refine Guarded.invariant (fun _d action _next serial guard taken => ?_) apart
      (Deployment.Serial.start obj) ran
    refine Deployment.Serial.step serial guard ?_ taken
    cases action with
    | enter m index found => exact fun _job _here => trivial
    | network _ | access _ _ | handle _ _ => trivial
  obtain ⟨before, replayed, serving⟩ := serial m
  exact ⟨before, replayed, serving.stop⟩

end CseLab.Rpc
