import CseLab.Lib.RefCount
import CseLab.Rpc.Pointed
import CseLab.Rpc.PollMgr
import Mathlib.Data.List.Sort

/-! The connections that a server accepts, from `accept` to `delete`. The listening
thread keeps them in `conns_`, gives up those that are dead and held by nobody else,
and its destructor closes the rest; jobs, the server's own `conns_` and the poll
manager point to them meanwhile. -/

namespace CseLab.Rpc

open Counting RefCount

/-! ### `tcpsconn` -/

/-- Where the thread of `accept_conn` is, or the one that runs the destructor after it:
in `select`, in the loop over `conns_` with a new connection, before the `decref` of an
entry that is dead and has one reference, or in the loop of the destructor. There it
waits in `block_remove_fd` of `closeconn`, or is behind it. -/
inductive Owner where
  | accepting
  | scanning (ch : Conn) (rest : List Conn)
  | doomed (ch c : Conn) (rest : List Conn)
  | closing (rest : List Conn)
  | removing (c : Conn) (rest : List Conn)
  | closed (c : Conn) (rest : List Conn)
deriving DecidableEq

/-- A server that listens. The counts are those of `refs`; `heap` has the connections
that have not been deleted, `conns` those of `tcpsconn::conns_`, and `failing` the jobs
whose `send` has failed and waits in `block_remove_fd`. -/
structure Listener where
  refs : RefServer
  channo : Conn → Nat
  made : List Conn
  heap : List Conn
  dead : Conn → Bool
  callbacks : Nat → Option Conn
  conns : List Conn
  owner : Owner
  failing : List Nat

def Listener.start (nonce : UInt32) (procs : Nat → Bool) : Listener :=
  { refs := .start nonce procs
    channo := fun _ => 0
    made := []
    heap := []
    dead := fun _ => false
    callbacks := fun _ => none
    conns := []
    owner := .accepting
    failing := [] }

/-- `destroy` is the destructor up to its loop, and each turn of that loop is
`closeconn`, `removed` and `release`. `broken` is a callback that finds its connection
broken. -/
inductive ListenerAction where
  | accept (fd : Nat) (ch : Conn)
  | scan
  | collect
  | insert
  | destroy
  | closeconn
  | removed
  | release
  | broken (fd : Nat)
  | sendFails (index : Nat)
  | sendRemoved (index : Nat)
  | arrives (fd : Nat) (action : RefAction)
  | serves (action : RefAction)

def Listener.recounted (s : Listener) (refs : RefServer) : Listener :=
  { s with refs := refs, heap := survivors s.dead s.refs.refno refs.refno s.heap }

def Listener.decref (s : Listener) (c : Conn) : Listener :=
  s.recounted { s.refs with refno := Rpc.decref s.refs.refno c }

/-- What a step of a job needs: `isdead` is read from the connection, and `send` has
returned before the job goes on. -/
def Listener.permits (s : Listener) : RefAction → Bool
  | .job index (.choose isdead) =>
      (s.refs.server.jobs[index]?).all fun job => isdead == s.dead job.conn
  | .job index .send => !s.failing.contains index
  | _ => true

def Listener.step (s : Listener) : ListenerAction → Option Listener
  | .accept fd ch =>
      match s.owner with
      | .accepting =>
          -- the kernel gives a descriptor that is not open; `add_callback` asserts that it
          -- is below its bound, and that nothing else is registered for it
          if ch ∉ s.made ∧ fd ∉ s.heap.map s.channo ∧ fd < maxPollFds ∧
              s.callbacks fd = none then
            some { s with
              channo := Function.update s.channo ch fd
              made := ch :: s.made
              heap := ch :: s.heap
              dead := Function.update s.dead ch false
              callbacks := Function.update s.callbacks fd (some ch)
              owner := .scanning ch s.conns }
          else none
      | _ => none
  | .scan =>
      match s.owner with
      | .scanning ch (c :: rest) =>
          if s.dead c = true ∧ s.refs.refno c = 1 then some { s with owner := .doomed ch c rest }
          else some { s with owner := .scanning ch rest }
      | _ => none
  | .collect =>
      match s.owner with
      | .doomed ch c rest =>
          some { s.decref c with conns := s.conns.erase c, owner := .scanning ch rest }
      | _ => none
  | .insert =>
      match s.owner with
      | .scanning ch [] =>
          some { s with
            conns := (s.conns.filter fun c => decide (s.channo c ≠ s.channo ch)).orderedInsert
              (fun a b => s.channo a ≤ s.channo b) ch
            owner := .accepting }
      | _ => none
  | .destroy =>
      match s.owner with
      | .accepting => some { s with owner := .closing s.conns }
      | _ => none
  | .closeconn =>
      match s.owner with
      | .closing (c :: rest) =>
          if s.dead c = true then some { s with owner := .closed c rest }
          else
            some { s with
              dead := Function.update s.dead c true
              owner := .removing c rest }
      | _ => none
  | .removed =>
      match s.owner with
      | .removing c rest =>
          some { s with
            callbacks := Function.update s.callbacks (s.channo c) none
            owner := .closed c rest }
      | _ => none
  | .release =>
      match s.owner with
      | .closed c rest => some { s.decref c with owner := .closing rest }
      | _ => none
  | .broken fd =>
      match s.callbacks fd with
      | some c =>
          if s.dead c = true then none
          else
            some { s with
              dead := Function.update s.dead c true
              callbacks := Function.update s.callbacks fd none }
      | none => none
  | .sendFails index =>
      match s.refs.server.jobs[index]? with
      | some job =>
          if job.phase = .sending ∧ s.dead job.conn = false then
            some { s with
              dead := Function.update s.dead job.conn true
              failing := index :: s.failing }
          else none
      | none => none
  | .sendRemoved index =>
      match s.refs.server.jobs[index]? with
      | some job =>
          if index ∈ s.failing then
            some { s with
              callbacks := Function.update s.callbacks (s.channo job.conn) none
              failing := s.failing.erase index }
          else none
      | none => none
  | .arrives fd action =>
      match action.arrives with
      | some c =>
          if s.callbacks fd = some c ∧ s.dead c = false then
            (s.refs.step action).map s.recounted
          else none
      | none => none
  | .serves action =>
      if action.arrives = none ∧ s.permits action = true then
        (s.refs.step action).map s.recounted
      else none

/-! ### The references and the heap -/

/-- The connections whose first reference is still to be given up by the listener. -/
def Owner.held (conns : List Conn) : Owner → List Conn
  | .accepting => conns
  | .scanning ch _ | .doomed ch _ _ => ch :: conns
  | .closing rest => rest
  | .removing c rest | .closed c rest => c :: rest

def Listener.held (s : Listener) : List Conn := s.owner.held s.conns

/-- What a loop over `conns_` has yet to come to, the entry it is at included. -/
def Owner.ahead : Owner → List Conn
  | .accepting => []
  | .scanning _ rest | .closing rest => rest
  | .doomed _ c rest | .removing c rest | .closed c rest => c :: rest

/-- One for each connection whose first reference has been given up. -/
def spent (made held : List Conn) (c : Conn) : Int := if c ∈ made ∧ c ∉ held then 1 else 0

/-- The counts as they were if the listener gave nothing up. -/
def Listener.full (s : Listener) : RefServer := s.refs.plus (spent s.made s.held)

/-- What the counts say of the heap. -/
structure Listener.Accounts (s : Listener) : Prop where
  counted : s.full.Counted
  live : ∀ c, c ∈ s.heap ↔ c ∈ s.made ∧ 0 < s.refs.refno c
  made : ∀ c ∈ s.held, c ∈ s.made
  nodup : s.held.Nodup
  pointed : ∀ c, s.refs.PointsTo c → c ∈ s.made
  distinct : Distinct s.channo s.heap

theorem spent_congr {made held other : List Conn} (same : ∀ c, c ∈ held ↔ c ∈ other) :
    spent made held = spent made other := by
  funext c
  simp only [spent, same c]

theorem RefServer.Counted.shared {s : RefServer} (counted : s.Counted) (c : Conn) :
    1 < s.refno c ↔
      s.PointsTo c ∨ ∃ job ∈ s.server.jobs, job.leaks s.server.nonce c = true := by
  have total := counted.refno c
  rw [countP_counts] at total
  constructor
  · intro more
    by_contra none
    rcases not_or.mp none with ⟨unpointed, unleaked⟩
    have holds : s.server.jobs.countP (fun job => job.holds c) = 0 := by
      refine List.countP_eq_zero.mpr fun job member holds => unpointed (.inl ?_)
      exact ⟨job, member, of_decide_eq_true holds⟩
    have leaks : s.server.jobs.countP (fun job => job.leaks s.server.nonce c) = 0 :=
      List.countP_eq_zero.mpr fun job member leaks => unleaked ⟨job, member, leaks⟩
    have shorts : s.shorts.count c = 0 :=
      List.count_eq_zero.mpr fun short => unpointed (.inr (.inl short))
    have entries : keys s.server.conns c = 0 := by
      by_contra some
      obtain ⟨n, entry⟩ := (Set.ncard_pos (Set.toFinite _)).mp (Nat.pos_of_ne_zero some)
      exact unpointed (.inr (.inr ⟨n, entry⟩))
    omega
  · rintro (points | ⟨job, member, leaks⟩)
    · by_contra few
      exact counted.unpointed (by omega) points
    · have positive := List.countP_pos_iff (p := fun job : Job => job.leaks s.server.nonce c).mpr
        ⟨job, member, leaks⟩
      omega

section Accounts

variable {s next : Listener} {c : Conn}

theorem Listener.full_refno (s : Listener) (c : Conn) :
    s.full.refno c = s.refs.refno c + spent s.made s.held c := rfl

theorem Listener.refno_held (counted : s.full.Counted) (held : c ∈ s.held) :
    1 ≤ s.refs.refno c := by
  have total := counted.refno c
  have unspent : spent s.made s.held c = 0 := if_neg fun gone => gone.2 held
  rw [Listener.full_refno, unspent] at total
  omega

theorem Listener.refno_nonneg (counted : s.full.Counted) (c : Conn) : 0 ≤ s.refs.refno c := by
  have total := counted.refno c
  have few : spent s.made s.held c ≤ 1 := by
    unfold spent
    split <;> decide
  rw [Listener.full_refno] at total
  omega

theorem Listener.unheld_refno (made : c ∈ s.made) (unheld : c ∉ s.held) :
    s.full.refno c = s.refs.refno c + 1 := by
  have gone : spent s.made s.held c = 1 := if_pos ⟨made, unheld⟩
  rw [Listener.full_refno, gone]

theorem Listener.Accounts.heap_iff (accounts : s.Accounts) (made : c ∈ s.made) :
    c ∈ s.heap ↔ c ∈ s.held ∨ s.refs.PointsTo c ∨
      ∃ job ∈ s.refs.server.jobs, job.leaks s.refs.server.nonce c = true := by
  have shared := accounts.counted.shared c
  rw [accounts.live c]
  by_cases held : c ∈ s.held
  · have positive := Listener.refno_held accounts.counted held
    exact ⟨fun _live => .inl held, fun _held => ⟨made, by omega⟩⟩
  · rw [s.unheld_refno made held] at shared
    constructor
    · exact fun live => .inr (shared.mp (by omega))
    · intro holders
      have more := shared.mpr (holders.resolve_left held)
      exact ⟨made, by omega⟩

theorem Listener.Accounts.start (nonce : UInt32) (procs : Nat → Bool) :
    (Listener.start nonce procs).Accounts := by
  have counted : (Listener.start nonce procs).full = .start nonce procs := by
    unfold Listener.full RefServer.plus
    exact congrArg (RefServer.mk _ _) (funext fun c => by simp [spent, Listener.start, RefServer.start])
  refine ⟨counted ▸ .start nonce procs, ?_, ?_, ?_, ?_, ?_⟩
  · exact fun c => iff_of_false List.not_mem_nil fun live => List.not_mem_nil live.1
  · exact fun c held => absurd held List.not_mem_nil
  · exact List.nodup_nil
  · rintro c (⟨job, member, -⟩ | short | ⟨n, entry⟩)
    · exact absurd member List.not_mem_nil
    · exact absurd short List.not_mem_nil
    · cases entry
  · exact fun c live => absurd live List.not_mem_nil

theorem Listener.Accounts.kept (accounts : s.Accounts) (refs : next.refs = s.refs)
    (made : next.made = s.made) (heap : next.heap = s.heap) (channo : next.channo = s.channo)
    (held : next.held.Perm s.held) : next.Accounts := by
  have full : next.full = s.full := by
    unfold Listener.full
    rw [refs, made, spent_congr fun c => held.mem_iff]
  refine ⟨full ▸ accounts.counted, ?_, ?_, held.nodup_iff.mpr accounts.nodup, ?_, ?_⟩
  · rw [heap, made, refs]
    exact accounts.live
  · rw [made]
    exact fun c member => accounts.made c (held.mem_iff.mp member)
  · rw [refs, made]
    exact accounts.pointed
  · rw [heap, channo]
    exact accounts.distinct

theorem Listener.Accounts.serves (accounts : s.Accounts)
    (released : ∀ c ∈ s.made, c ∉ s.held → s.dead c = true) {action : RefAction}
    {refs : RefServer} (taken : s.refs.step action = some refs)
    (arrival : ∀ c, action.arrives = some c → c ∈ s.made ∧ s.dead c = false) :
    (s.recounted refs).Accounts := by
  have counted : (s.recounted refs).full.Counted :=
    accounts.counted.step (RefServer.step_plus taken (spent s.made s.held))
  have live := @mem_survivors _ s.dead s.refs.refno refs.refno _ _ accounts.live ?spends ?stays
  case spends =>
    intro c made _positive few
    have unheld : c ∉ s.held := by
      intro held
      have positive : 1 ≤ refs.refno c := Listener.refno_held counted held
      omega
    have least : 0 ≤ refs.refno c := Listener.refno_nonneg counted c
    exact ⟨released c made unheld, by omega⟩
  case stays =>
    intro c made few
    have unheld : c ∉ s.held := by
      intro held
      have positive := Listener.refno_held accounts.counted held
      omega
    have total := s.unheld_refno made unheld
    have unpointed : ¬s.refs.PointsTo c := accounts.counted.unpointed (c := c) (by omega)
    have elsewhere : action.arrives ≠ some c := by
      intro here
      have alive := (arrival c here).2
      rw [released c made unheld] at alive
      exact Bool.noConfusion alive
    rw [RefServer.refno_step taken unpointed elsewhere]
    exact few
  refine ⟨counted, live, accounts.made, accounts.nodup, ?_, ?_⟩
  · intro c points
    rcases RefServer.points_step taken points with before | here
    · exact accounts.pointed c before
    · exact (arrival c here).1
  · exact accounts.distinct.fewer fun c => mem_of_survivors

theorem Listener.Accounts.drops (accounts : s.Accounts) (dead : s.dead c = true)
    (refs : next.refs = (s.decref c).refs) (made : next.made = s.made)
    (heap : next.heap = (s.decref c).heap) (channo : next.channo = s.channo)
    (given : s.held.Perm (c :: next.held)) : next.Accounts := by
  have nodup := List.nodup_cons.mp (given.nodup_iff.mp accounts.nodup)
  have held : c ∈ s.held := given.mem_iff.mpr List.mem_cons_self
  have full : next.full = s.full := by
    unfold Listener.full RefServer.plus
    rw [refs, made]
    refine congrArg (RefServer.mk _ _) (funext fun d => ?_)
    change Rpc.decref s.refs.refno c d + spent s.made next.held d =
      s.refs.refno d + spent s.made s.held d
    rw [decref_apply]
    by_cases same : c = d
    · have before : spent s.made s.held d = 0 := if_neg fun gone => gone.2 (same ▸ held)
      have after : spent s.made next.held d = 1 :=
        if_pos ⟨same ▸ accounts.made c held, same ▸ nodup.1⟩
      rw [before, after, if_pos same]
      omega
    · have kept : d ∈ next.held ↔ d ∈ s.held := by
        rw [given.mem_iff, List.mem_cons]
        exact ⟨.inr, fun either => either.resolve_left (Ne.symm same)⟩
      simp only [spent, kept, if_neg same, Int.sub_zero]
  have counted : next.full.Counted := full ▸ accounts.counted
  have live := @mem_survivors _ s.dead s.refs.refno (s.decref c).refs.refno _ _ accounts.live
    ?spends ?stays
  case spends =>
    intro d _made positive few
    change Rpc.decref s.refs.refno c d ≤ 0 at few
    change s.dead d = true ∧ Rpc.decref s.refs.refno c d = 0
    rw [decref_apply] at few ⊢
    by_cases same : c = d
    · rw [if_pos same] at few ⊢
      exact ⟨same ▸ dead, by omega⟩
    · rw [if_neg same] at few
      omega
  case stays =>
    intro d _made few
    change Rpc.decref s.refs.refno c d ≤ 0
    rw [decref_apply]
    split <;> omega
  refine ⟨counted, ?_, ?_, nodup.2, ?_, ?_⟩
  · rw [heap, made, refs]
    exact live
  · rw [made]
    exact fun d later => accounts.made d (given.mem_iff.mpr (List.mem_cons_of_mem c later))
  · rw [refs, made]
    exact accounts.pointed
  · rw [heap, channo]
    exact accounts.distinct.fewer fun d => mem_of_survivors

end Accounts

end CseLab.Rpc
