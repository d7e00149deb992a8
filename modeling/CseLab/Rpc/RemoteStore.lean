import CseLab.FileSystem.Isolation
import CseLab.FileSystem.Uninitialised
import CseLab.Rpc.ExtentService
import CseLab.Rpc.Linearizable

/-! The extent server as its clients see it: one table of files, which every call
looks at or changes at one moment between its start and its return. -/

namespace CseLab.Rpc

open BigEndian ByteMemory Transition
open FileSystem (Call Consistent Disk DiskOp Request.call StepOk Uninit View maskId serve view)

/-! ### Calls of the table -/

/-- What a request asks for, if it is the encoding of arguments. -/
def Request.asks (request : Request) : Option Call :=
  if request.proc = ExtentProtocol.get then
    let (values, u) := unmarshallValues [.unsignedLongLong] request.message
    if u.okdone then some (.get (UInt64.toNat values.1)) else none
  else if request.proc = ExtentProtocol.getattr then
    let (values, u) := unmarshallValues [.unsignedLongLong] request.message
    if u.okdone then some (.getattr (UInt64.toNat values.1)) else none
  else if request.proc = ExtentProtocol.put then
    let (values, u) := unmarshallValues [.unsignedLongLong, .string] request.message
    if u.okdone then some (.put (UInt64.toNat values.1) values.2.1) else none
  else if request.proc = ExtentProtocol.remove then
    let (values, u) := unmarshallValues [.unsignedLongLong] request.message
    if u.okdone then some (.remove (UInt64.toNat values.1)) else none
  else none

def handlerOf (uninit : Uninit) : Call → FileSystem.Request
  | .create type => .create type uninit
  | .put id buf => .put id buf uninit
  | .get id => .get id uninit
  | .getattr id => .getattr id
  | .remove id => .remove id uninit

theorem handlerOf_call (uninit : Uninit) (call : Call) : (handlerOf uninit call).call = call := by
  cases call <;> rfl

/-- The result of a call, as its reply has it. -/
def Gives (v : View) : Call → List UInt8 → Prop
  | .get id, body => body = Ty.string.encode ((v.files (maskId id)).elim [] FileSystem.File.bytes)
  | .getattr id, body => ∃ a : FileSystem.Attr, body = Ty.attr.encode a ∧
      a.type = (v.files (maskId id)).elim 0 (fun file =>
        UInt32.ofNat (FileSystem.toUint32 (Int.bmod file.type.toNat (2 ^ 16)))) ∧
      a.size.toNat = (v.files (maskId id)).elim 0 (fun file => file.bytes.length)
  | .put _ _, body | .remove _, body | .create _, body => body.length = 4

/-- The handler may be trusted on this disk, and reads no file whose inode lies in data. -/
def Trusted (d : Disk) (uninit : Uninit) (call : Call) : Prop :=
  StepOk d (handlerOf uninit call) ∧
    ∀ id, call = .get id ∨ call = .getattr id → maskId id = FileSystem.inodeNum - 1 →
      FileSystem.marked d FileSystem.firstData = false

/-! ### Handlers -/

theorem get_gives {d : Disk} {uninit : Uninit} {id : Nat} {buf : List UInt8}
    (consistent : Consistent d)
    (last : maskId id = FileSystem.inodeNum - 1 →
      FileSystem.marked d FileSystem.firstData = false)
    (read : FileSystem.get d uninit id = some buf) :
    buf = ((view d).files (maskId id)).elim [] FileSystem.File.bytes := by
  change buf = (FileSystem.files d (maskId id)).elim [] FileSystem.File.bytes
  cases found : FileSystem.getInode d (maskId id) with
  | none =>
      rw [FileSystem.get_missing uninit found] at read
      rw [FileSystem.files_missing found]
      exact (Option.some.inj read).symm
  | some ino =>
      have file : FileSystem.FileAt d (maskId id) ino := ⟨found, last⟩
      rw [FileSystem.get_of_file consistent file uninit] at read
      rw [FileSystem.files_of_file file]
      exact (Option.some.inj read).symm

theorem getattr_gives {d : Disk} {id : Nat}
    (last : maskId id = FileSystem.inodeNum - 1 →
      FileSystem.marked d FileSystem.firstData = false) :
    Gives (view d) (.getattr id) (Ty.attr.encode (FileSystem.getattr d id)) := by
  refine ⟨FileSystem.getattr d id, rfl, ?_⟩
  change _ = (FileSystem.files d (maskId id)).elim 0 _ ∧
    _ = (FileSystem.files d (maskId id)).elim 0 _
  cases found : FileSystem.getInode d (maskId id) with
  | none =>
      rw [FileSystem.files_missing found]
      unfold FileSystem.getattr FileSystem.inodeAttr
      rw [found]
      exact ⟨rfl, rfl⟩
  | some ino =>
      have file : FileSystem.FileAt d (maskId id) ino := ⟨found, last⟩
      obtain ⟨size, type⟩ := FileSystem.getattr_of_file file
      rw [FileSystem.files_of_file file, size, type]
      exact ⟨rfl, (FileSystem.contents_length d ino).symm⟩

def Serves (d : Disk) (uninit : Uninit) (call : Call) (after : Disk) (ret : Int)
    (body : List UInt8) : Prop :=
  serve d (handlerOf uninit call) = some after ∧ ret = ExtentProtocol.ok ∧
    (Consistent d → Trusted d uninit call → Gives (view d) call body)

theorem get_serves {uninit : Uninit} {d after : Disk} {values : Values [.unsignedLongLong]}
    (r : List UInt8) {result : List UInt8} {ret : Int}
    (method : ExtentServer.get.meth uninit d values r = some (after, ret, result)) :
    Serves d uninit (.get (UInt64.toNat values.1)) after ret (Ty.string.encode result) := by
  dsimp only [ExtentServer.get] at method
  obtain ⟨buf, read, same⟩ := Option.map_eq_some_iff.mp method
  cases same
  refine ⟨Option.map_eq_some_iff.mpr ⟨_, read, rfl⟩, rfl, ?_⟩
  intro consistent trusted
  exact congrArg Ty.string.encode (get_gives consistent (trusted.2 _ (.inl rfl)) read)

theorem getattr_serves {uninit : Uninit} {d after : Disk} {values : Values [.unsignedLongLong]}
    (r : FileSystem.Attr) {result : FileSystem.Attr} {ret : Int}
    (method : ExtentServer.getattr.meth uninit d values r = some (after, ret, result)) :
    Serves d uninit (.getattr (UInt64.toNat values.1)) after ret (Ty.attr.encode result) := by
  dsimp only [ExtentServer.getattr] at method
  cases method
  refine ⟨rfl, rfl, ?_⟩
  intro consistent trusted
  exact getattr_gives (trusted.2 _ (.inr rfl))

theorem put_serves {uninit : Uninit} {d after : Disk}
    {values : Values [.unsignedLongLong, .string]} (r : Int32) {result : Int32} {ret : Int}
    (method : ExtentServer.put.meth uninit d values r = some (after, ret, result)) :
    Serves d uninit (.put (UInt64.toNat values.1) values.2.1) after ret (Ty.int.encode result) := by
  dsimp only [ExtentServer.put] at method
  obtain ⟨disk, wrote, same⟩ := Option.map_eq_some_iff.mp method
  cases same
  exact ⟨wrote, rfl, fun _consistent _trusted => rfl⟩

theorem remove_serves {uninit : Uninit} {d after : Disk} {values : Values [.unsignedLongLong]}
    (r : Int32) {result : Int32} {ret : Int}
    (method : ExtentServer.remove.meth uninit d values r = some (after, ret, result)) :
    Serves d uninit (.remove (UInt64.toNat values.1)) after ret (Ty.int.encode result) := by
  dsimp only [ExtentServer.remove] at method
  obtain ⟨disk, removed, same⟩ := Option.map_eq_some_iff.mp method
  cases same
  exact ⟨removed, rfl, fun _consistent _trusted => rfl⟩

/-- A procedure that is executed serves the call that its request asks for. -/
theorem extent_executes {request : Request} {p : Procedure Disk Uninit}
    (procedure : extentProcs request.proc = some p) {found : Found Uninit} {d after : Disk}
    {ret : Int} {body : List UInt8}
    (executes : p.execute found d request = some (after, ret, body)) :
    ∃ call, request.asks = some call ∧ Serves d found.uninit call after ret body := by
  have plain := extent_plain procedure
  obtain ⟨done, result, method, same⟩ :=
    Procedure.execute_some executes (fun values => plain.fits found.uninit d values _)
  unfold extentProcs at procedure
  unfold Request.asks
  by_cases isGet : request.proc = ExtentProtocol.get
  · rw [if_pos isGet] at procedure
    rw [if_pos isGet]
    obtain rfl := Option.some.inj procedure
    dsimp only [ExtentServer.get] at done result method same
    rw [same]
    generalize unmarshallValues [.unsignedLongLong] request.message = read at done method ⊢
    exact ⟨_, if_pos done, get_serves (found.r .string) method⟩
  · rw [if_neg isGet] at procedure
    rw [if_neg isGet]
    by_cases isGetattr : request.proc = ExtentProtocol.getattr
    · rw [if_pos isGetattr] at procedure
      rw [if_pos isGetattr]
      obtain rfl := Option.some.inj procedure
      dsimp only [ExtentServer.getattr] at done result method same
      rw [same]
      generalize unmarshallValues [.unsignedLongLong] request.message = read at done method ⊢
      exact ⟨_, if_pos done, getattr_serves (found.r .attr) method⟩
    · rw [if_neg isGetattr] at procedure
      rw [if_neg isGetattr]
      by_cases isPut : request.proc = ExtentProtocol.put
      · rw [if_pos isPut] at procedure
        rw [if_pos isPut]
        obtain rfl := Option.some.inj procedure
        dsimp only [ExtentServer.put] at done result method same
        rw [same]
        generalize unmarshallValues [.unsignedLongLong, .string] request.message = read at done method ⊢
        exact ⟨_, if_pos done, put_serves (found.r .int) method⟩
      · rw [if_neg isPut] at procedure
        rw [if_neg isPut]
        by_cases isRemove : request.proc = ExtentProtocol.remove
        · rw [if_pos isRemove] at procedure
          rw [if_pos isRemove]
          obtain rfl := Option.some.inj procedure
          dsimp only [ExtentServer.remove] at done result method same
          rw [same]
          generalize unmarshallValues [.unsignedLongLong] request.message = read at done method ⊢
          exact ⟨_, if_pos done, remove_serves (found.r .int) method⟩
        · rw [if_neg isRemove] at procedure
          cases procedure

theorem rpcbind_executes {nonce : UInt32} {request : Request} {found : Found Uninit}
    {d after : Disk} {ret : Int} {body : List UInt8}
    (executes : (rpcbind nonce).execute found d request = some (after, ret, body)) : after = d := by
  obtain ⟨-, result, method, -⟩ := Procedure.execute_some executes (by
    intro values after b result given
    cases given
    exact ⟨by decide, trivial, Nat.le_of_ble_eq_true rfl⟩)
  cases method
  rfl

theorem Request.asks_bind {request : Request} (bind : request.proc = RpcConst.bind) :
    request.asks = none := by
  unfold Request.asks
  rw [bind]
  rfl

/-! ### The table of an instance -/

def Event.table (m : UInt32) (v : View) : Event Uninit → View
  | .executed other request _ _ _ => if other = m then request.asks.elim v v.serve else v
  | .called _ | .returned _ => v

def table (m : UInt32) (v : View) (history : List (Event Uninit)) : View :=
  history.foldl (fun v event => event.table m v) v

theorem table_append (m : UInt32) (v : View) (first second : List (Event Uninit)) :
    table m v (first ++ second) = table m (table m v first) second := List.foldl_append

theorem table_others {m : UInt32} {events : List (Event Uninit)}
    (others : ∀ event ∈ events, ¬event.Of m) (v : View) : table m v events = v := by
  induction events with
  | nil => rfl
  | cons event rest ih =>
      have first : event.table m v = v := by
        cases event with
        | executed other request found ret body => exact if_neg (others _ List.mem_cons_self)
        | called _ | returned _ => rfl
      unfold table at ih ⊢
      rw [List.foldl_cons, first]
      exact ih (fun later member => others later (List.mem_cons_of_mem event member))

theorem table_executed (m : UInt32) (v : View) (request : Request) (found : Found Uninit)
    (ret : Int) (body : List UInt8) :
    table m v [.executed m request found ret body] = request.asks.elim v v.serve := if_pos rfl

def HandlerTrusted (d : Disk) (found : Found Uninit) (request : Request) : Prop :=
  ∀ call, request.asks = some call → Trusted d found.uninit call

structure Deployment.Tabled (start : Disk) (d : Deployment Disk DiskOp Memory Uninit) :
    Prop where
  follows : ∀ m, ∃ before, Serving extentHandlers HandlerTrusted d m before ∧
    Consistent before ∧ view before = table m (view start) d.history
  gives : ∀ k m request ret body, ExecutedAt d.history k m request ret body →
    request.proc ≠ RpcConst.bind → ∃ call, request.asks = some call ∧ ret = ExtentProtocol.ok ∧
      Gives (table m (view start) (d.history.take k)) call body

theorem Deployment.Tabled.start {disk : Disk} (consistent : Consistent disk) :
    (Deployment.start extentHandlers disk).Tabled disk where
  follows := fun _m => ⟨disk, .idle (fun _index => rfl) rfl, consistent, rfl⟩
  gives := fun _k _m _request _ret _body ⟨_found, here⟩ => nomatch here

/-- The disk that a handler leaves, and what it replies. -/
theorem Ends.served {d next : Deployment Disk DiskOp Memory Uninit} {m : UInt32}
    {before : Disk} {request : Request} {found : Found Uninit} {ret : Int} {body : List UInt8}
    (ends : Ends extentHandlers HandlerTrusted d next m before request found ret body)
    (consistent : Consistent before) :
    Consistent (next.objects m) ∧
      view (next.objects m) = request.asks.elim (view before) (view before).serve ∧
      (request.proc ≠ RpcConst.bind → ∃ call, request.asks = some call ∧
        ret = ExtentProtocol.ok ∧ Gives (view before) call body) := by
  obtain ⟨h, handler, executes⟩ := ends.executes
  unfold registered at handler
  by_cases bind : request.proc = RpcConst.bind
  · rw [if_pos bind] at handler
    obtain rfl := Option.some.inj handler
    rw [Request.asks_bind bind, rpcbind_executes executes]
    exact ⟨consistent, rfl, fun other => absurd bind other⟩
  · rw [if_neg bind] at handler
    have procedure : extentProcs request.proc = some h.toProcedure := by
      rw [← extentHandlers_procs, handler, Option.map_some]
    obtain ⟨call, asks, served, success, gives⟩ := extent_executes procedure executes
    have safe := ends.met call asks
    refine ⟨(FileSystem.serve_refines consistent safe.1 served).1, ?_, fun _other =>
      ⟨call, asks, success, gives consistent safe⟩⟩
    rw [FileSystem.serve_view consistent safe.1 served, handlerOf_call, asks]
    rfl

theorem Deployment.Tabled.step {start : Disk}
    {d next : Deployment Disk DiskOp Memory Uninit} {action : DeploymentAction Uninit}
    (tabled : d.Tabled start) (apart : d.Apart action) (enters : d.Enters HandlerTrusted action)
    (taken : d.step extentHandlers action = some next) : next.Tabled start := by
  constructor
  · intro m
    obtain ⟨before, serving, consistent, follows⟩ := tabled.follows m
    rcases serving.step apart enters taken with
      ⟨serving, more, history, others⟩ | ⟨request, found, ret, body, ends⟩
    · refine ⟨before, serving, consistent, ?_⟩
      rw [history, table_append, table_others others, follows]
    · obtain ⟨kept, refines, -⟩ := ends.served consistent
      refine ⟨next.objects m, .idle ends.idle rfl, kept, ?_⟩
      rw [ends.history, table_append, ← follows, table_executed, refines]
  · intro k m request ret body executed other
    obtain ⟨before, serving, consistent, follows⟩ := tabled.follows m
    have inside := executed.lt
    obtain ⟨found, here⟩ := executed
    rcases serving.step apart enters taken with
      ⟨-, more, history, others⟩ | ⟨request', found', ret', body', ends⟩
    · rw [history] at here ⊢
      rcases event_append_cases here with earlier | ⟨-, new⟩
      · have executed : ExecutedAt d.history k m request ret body := ⟨found, earlier⟩
        rw [List.take_append_of_le_length executed.lt.le]
        exact tabled.gives k m request ret body executed other
      · exact absurd rfl (others _ new)
    · rw [ends.history] at here inside ⊢
      rcases event_append_cases here with earlier | ⟨outside, new⟩
      · have executed : ExecutedAt d.history k m request ret body := ⟨found, earlier⟩
        rw [List.take_append_of_le_length executed.lt.le]
        exact tabled.gives k m request ret body executed other
      · cases List.mem_singleton.mp new
        rw [List.length_append, List.length_singleton] at inside
        have last : k = d.history.length := by omega
        subst last
        rw [List.take_left, ← follows]
        exact (ends.served consistent).2.2 other

/-! ### Runs -/

/-- Along a run in which the handlers of an instance do not overlap and may be trusted,
what a call returns is right for the table of its instance as it was at one moment between
the call and the return. -/
theorem remote_store {start : Disk} (consistent : Consistent start)
    {actions : List (DeploymentAction Uninit)} {d : Deployment Disk DiskOp Memory Uninit}
    (trusted : Guarded (Deployment.step extentHandlers)
      (fun d action => d.Apart action ∧ d.Enters HandlerTrusted action)
      (.start extentHandlers start) actions)
    (ran : run (Deployment.step extentHandlers) (.start extentHandlers start) actions = some d) :
    (∀ m, (∀ index, d.running m index = none) →
      Consistent (d.objects m) ∧ view (d.objects m) = table m (view start) d.history) ∧
    ∀ (k : Nat) (r : Returned), d.history[k]? = some (.returned r) → 0 ≤ r.ret →
      ∃ (c : Nat) (request : Request), c < k ∧ d.history[c]? = some (.called request) ∧
        request.cltNonce = r.cltNonce ∧ request.xid = r.xid ∧
        (request.proc ≠ RpcConst.bind → ∃ j call, c < j ∧ j < k ∧
          ExecutedAt d.history j request.srvNonce request r.ret r.body ∧
          request.asks = some call ∧ r.ret = ExtentProtocol.ok ∧
          Gives (table request.srvNonce (view start) (d.history.take j)) call r.body) := by
  have tabled : d.Tabled start :=
    Guarded.invariant
      (fun _d _action _next tabled guard taken => tabled.step guard.1 guard.2 taken) trusted
      (Deployment.Tabled.start consistent) ran
  have tracked : d.Tracked extentHandlers := Deployment.Tracked.of_reachable ⟨actions, ran⟩
  constructor
  · intro m free
    obtain ⟨before, serving, kept, follows⟩ := tabled.follows m
    rw [serving.stop free]
    exact ⟨kept, follows⟩
  · intro k r here valid
    obtain ⟨request, client, xid, ⟨c, earlier, called⟩, executed⟩ := tracked.returned k r here valid
    refine ⟨c, request, earlier, called, client, xid, fun other => ?_⟩
    obtain ⟨j, before, ranAt⟩ := executed other
    obtain ⟨⟨c', since, called'⟩, -⟩ := tracked.ran j _ _ _ _ ranAt
    have same := tracked.calledOnce c c' request request called called' rfl rfl
    obtain ⟨call, asks, success, gives⟩ := tabled.gives j _ _ _ _ ranAt other
    exact ⟨j, call, same ▸ since, before, ranAt, asks, success, gives⟩

/-- What can be tested of a call on a disk that holds no data yet. -/
def tested (d : Disk) : Call → Bool
  | .get id | .getattr id => decide (maskId id ≠ FileSystem.inodeNum - 1)
  | .put id buf =>
      decide (0 < buf.length) && decide (buf.length ≤ 81920) &&
        decide (maskId id ≠ FileSystem.inodeNum - 1) &&
        (List.range 2048).all (fun b => !FileSystem.marked d b) &&
        (FileSystem.getInode d (FileSystem.inodeNum - 1)).isNone &&
        (FileSystem.getInode d (maskId id)).all (fun ino => ino.size == 0)
  | .remove _ | .create _ => false

theorem tested_trusted {d : Disk} {call : Call} (passed : tested d call = true)
    (uninit : Uninit) : Trusted d uninit call := by
  cases call with
  | get id =>
      refine ⟨trivial, ?_⟩
      rintro other (same | same) last
      · cases same
        exact absurd last (of_decide_eq_true passed)
      · cases same
  | getattr id =>
      refine ⟨trivial, ?_⟩
      rintro other (same | same) last
      · cases same
      · cases same
        exact absurd last (of_decide_eq_true passed)
  | put id buf =>
      simp only [tested, Bool.and_eq_true, decide_eq_true_eq, List.all_eq_true, List.mem_range,
        Bool.not_eq_true'] at passed
      obtain ⟨⟨⟨⟨⟨any, small⟩, notLast⟩, clear⟩, unused⟩, empty⟩ := passed
      refine ⟨?_, ?_⟩
      · refine FileSystem.StepOk.put_first clear (Option.isNone_iff_eq_none.mp unused) ?_ notLast
          any small uninit
        intro ino found
        rw [found] at empty
        exact beq_iff_eq.mp empty
      · rintro other (same | same) <;> cases same
  | remove _ | create _ => cases passed

def handlerTested (d : Deployment Disk DiskOp Memory Uninit) :
    DeploymentAction Uninit → Bool
  | .enter m index _ =>
      ((d.network.servers m).jobs[index]?.bind fun job => job.request.asks).all
        (tested (d.objects m))
  | .network _ | .access _ _ | .handle _ _ => true

theorem handlerTested_trusted {d : Deployment Disk DiskOp Memory Uninit}
    {action : DeploymentAction Uninit} (passed : handlerTested d action = true) :
    d.Enters HandlerTrusted action := by
  cases action with
  | enter m index found =>
      intro job here call asks
      dsimp only [handlerTested] at passed
      rw [here, Option.bind_some, asks] at passed
      exact tested_trusted passed found.uninit
  | network _ | access _ _ | handle _ _ => trivial

theorem remote_store_stored : ∃ d,
    run (Deployment.step extentHandlers) (.start extentHandlers (FileSystem.construct .zero))
      storeActions = some d ∧ d.history[8]? = some (.returned storedReturned) ∧
      (∀ m, (∀ index, d.running m index = none) → Consistent (d.objects m) ∧
        view (d.objects m) = table m (view (FileSystem.construct .zero)) d.history) ∧
      ∃ (c : Nat) (request : Request), c < 8 ∧ d.history[c]? = some (.called request) ∧
        request.cltNonce = 5 ∧ request.xid = 3 := by
  obtain ⟨d, ran, here⟩ := storeActions_ran
  have tests : Guarded (Deployment.step extentHandlers)
      (fun d action => handlerTested d action = true)
      (.start extentHandlers (FileSystem.construct .zero)) storeActions := by decide +kernel
  have trusted := storeActions_apart.and
    (tests.mono fun _d _action passed => handlerTested_trusted passed)
  obtain ⟨tables, returned⟩ := remote_store (FileSystem.construct_consistent .zero) trusted ran
  obtain ⟨c, request, earlier, called, client, xid, -⟩ :=
    returned 8 storedReturned here (by decide)
  exact ⟨d, ran, here, tables, c, request, earlier, called, client, xid⟩

end CseLab.Rpc
