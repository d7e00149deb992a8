import CseLab.FileSystem.FileContents
import CseLab.FileSystem.Serving
import CseLab.Rpc.Handler

/-! The procedures that `extent_smain.cc` registers. A call of one of them over a
connection is the call that `extent_client.cc` makes of the server object itself. -/

namespace CseLab.Rpc

open BigEndian ByteMemory Interleaving
open FileSystem (Disk Uninit)

/-! ### `extent_protocol` -/

def ExtentProtocol.ok : Int := 0

def ExtentProtocol.put : Nat := 0x6001
def ExtentProtocol.get : Nat := 0x6002
def ExtentProtocol.getattr : Nat := 0x6003
def ExtentProtocol.remove : Nat := 0x6004

/-! ### The methods of `extent_server` -/

/-- `put` and `remove` leave their result variable as it is. -/
def ExtentServer.put : Procedure Disk Uninit where
  args := [.unsignedLongLong, .string]
  result := .int
  meth := fun uninit d values r =>
    (FileSystem.put d uninit (UInt64.toNat values.1) values.2.1).map fun d =>
      (d, ExtentProtocol.ok, r)

def ExtentServer.get : Procedure Disk Uninit where
  args := [.unsignedLongLong]
  result := .string
  meth := fun uninit d values _ =>
    (FileSystem.get d uninit (UInt64.toNat values.1)).map fun buf => (d, ExtentProtocol.ok, buf)

def ExtentServer.getattr : Procedure Disk Uninit where
  args := [.unsignedLongLong]
  result := .attr
  meth := fun _ d values _ =>
    some (d, ExtentProtocol.ok, FileSystem.getattr d (UInt64.toNat values.1))

def ExtentServer.remove : Procedure Disk Uninit where
  args := [.unsignedLongLong]
  result := .int
  meth := fun uninit d values r =>
    (FileSystem.remove d uninit (UInt64.toNat values.1)).map fun d => (d, ExtentProtocol.ok, r)

def extentProcs (proc : Nat) : Option (Procedure Disk Uninit) :=
  if proc = ExtentProtocol.get then some ExtentServer.get
  else if proc = ExtentProtocol.getattr then some ExtentServer.getattr
  else if proc = ExtentProtocol.put then some ExtentServer.put
  else if proc = ExtentProtocol.remove then some ExtentServer.remove
  else none

/-! ### The methods, access by access -/

def ExtentServer.putHandler : Handler Disk.act Uninit where
  toProcedure := ExtentServer.put
  script := fun uninit (values : Values [.unsignedLongLong, .string]) (r : Int32) => do
    FileSystem.Stepwise.put uninit (UInt64.toNat values.1) values.2.1
    return (ExtentProtocol.ok, r)
  alone := fun uninit d _ _ =>
    (Script.alone_map (FileSystem.Stepwise.alone_put d uninit _ _) _).trans (Option.map_map ..)

def ExtentServer.getHandler : Handler Disk.act Uninit where
  toProcedure := ExtentServer.get
  script := fun uninit (values : Values [.unsignedLongLong]) _ => do
    let buf ← FileSystem.Stepwise.get uninit (UInt64.toNat values.1)
    return (ExtentProtocol.ok, buf)
  alone := fun uninit d _ _ =>
    (Script.alone_map (FileSystem.Stepwise.alone_get d uninit _) _).trans (Option.map_map ..)

def ExtentServer.getattrHandler : Handler Disk.act Uninit where
  toProcedure := ExtentServer.getattr
  script := fun _ (values : Values [.unsignedLongLong]) _ => do
    let a ← FileSystem.Stepwise.getattr (UInt64.toNat values.1)
    return (ExtentProtocol.ok, a)
  alone := fun _ d _ _ => Script.alone_map (FileSystem.Stepwise.alone_getattr d _) _

def ExtentServer.removeHandler : Handler Disk.act Uninit where
  toProcedure := ExtentServer.remove
  script := fun uninit (values : Values [.unsignedLongLong]) (r : Int32) => do
    FileSystem.Stepwise.remove uninit (UInt64.toNat values.1)
    return (ExtentProtocol.ok, r)
  alone := fun uninit d _ _ =>
    (Script.alone_map (FileSystem.Stepwise.alone_remove d uninit _) _).trans (Option.map_map ..)

def extentHandlers (proc : Nat) : Option (Handler Disk.act Uninit) :=
  if proc = ExtentProtocol.get then some ExtentServer.getHandler
  else if proc = ExtentProtocol.getattr then some ExtentServer.getattrHandler
  else if proc = ExtentProtocol.put then some ExtentServer.putHandler
  else if proc = ExtentProtocol.remove then some ExtentServer.removeHandler
  else none

theorem extentHandlers_procs (proc : Nat) :
    (extentHandlers proc).map Handler.toProcedure = extentProcs proc := by
  unfold extentHandlers extentProcs
  split
  · rfl
  · split
    · rfl
    · split
      · rfl
      · split <;> rfl

/-! ### Remote calls -/

/-- What the procedures have in common: no argument or result type is that of a
container, and no method returns a failure or a result that is too long. -/
structure Procedure.Plain (p : Procedure Disk Uninit) : Prop where
  canonical : ∀ t ∈ p.args, t.Canonical
  stringsFit : ∀ u, (unmarshallValues p.args u).2.okdone = true → StringsFit p.args u
  overwrites : ¬p.result.Appends
  succeeds : ∀ uninit d values r result, p.meth uninit d values r = some result → 0 ≤ result.2.1
  fits : ∀ uninit d values r, p.Fits uninit d values r

private theorem put_plain : ExtentServer.put.Plain where
  canonical := by
    intro t member
    rcases List.mem_pair.mp member with rfl | rfl <;> trivial
  stringsFit := by
    intro u done
    change (unmarshallValues [.unsignedLongLong, .string] u).2.okdone = true at done
    rw [unmarshallValues_cons, unmarshallValues_cons, unmarshallValues_nil] at done
    exact ⟨trivial, Unmarshall.string_fits done, trivial⟩
  overwrites := not_false
  succeeds := by
    intro uninit d values r result given
    obtain ⟨d, -, rfl⟩ := Option.map_eq_some_iff.mp given
    exact Int.le_refl 0
  fits := by
    intro uninit d values r after b result given
    obtain ⟨d, -, same⟩ := Option.map_eq_some_iff.mp given
    cases same
    exact ⟨by decide, trivial, Nat.le_of_ble_eq_true rfl⟩

private theorem get_plain : ExtentServer.get.Plain where
  canonical := by
    intro t member
    cases List.mem_singleton.mp member
    trivial
  stringsFit := fun _u _done => ⟨trivial, trivial⟩
  overwrites := not_false
  succeeds := by
    intro uninit d values r result given
    obtain ⟨d, -, rfl⟩ := Option.map_eq_some_iff.mp given
    exact Int.le_refl 0
  fits := by
    intro uninit d values r after b result given
    obtain ⟨buf, read, same⟩ := Option.map_eq_some_iff.mp given
    cases same
    have short : result.length ≤ 81920 := FileSystem.get_length_le read
    have length : (Ty.string.encode result).length = 4 + result.length :=
      List.length_append
    refine ⟨by decide, trivial, ?_⟩
    change 24 + (Ty.string.encode result).length ≤ 2 ^ 30
    omega

private theorem getattr_plain : ExtentServer.getattr.Plain where
  canonical := by
    intro t member
    cases List.mem_singleton.mp member
    trivial
  stringsFit := fun _u _done => ⟨trivial, trivial⟩
  overwrites := not_false
  succeeds := by
    intro uninit d values r result given
    cases given
    exact Int.le_refl 0
  fits := by
    intro uninit d values r after b result given
    cases given
    exact ⟨by decide, trivial, Nat.le_of_ble_eq_true rfl⟩

private theorem remove_plain : ExtentServer.remove.Plain where
  canonical := by
    intro t member
    cases List.mem_singleton.mp member
    trivial
  stringsFit := fun _u _done => ⟨trivial, trivial⟩
  overwrites := not_false
  succeeds := by
    intro uninit d values r result given
    obtain ⟨d, -, rfl⟩ := Option.map_eq_some_iff.mp given
    exact Int.le_refl 0
  fits := by
    intro uninit d values r after b result given
    obtain ⟨d, -, same⟩ := Option.map_eq_some_iff.mp given
    cases same
    exact ⟨by decide, trivial, Nat.le_of_ble_eq_true rfl⟩

theorem extent_plain {proc : Nat} {p : Procedure Disk Uninit}
    (registered : extentProcs proc = some p) : p.Plain := by
  unfold extentProcs at registered
  split at registered
  · cases registered
    exact get_plain
  · split at registered
    · cases registered
      exact getattr_plain
    · split at registered
      · cases registered
        exact put_plain
      · split at registered
        · cases registered
          exact remove_plain
        · cases registered

/-- A remote call of a procedure of the extent server is the call of its method,
on any disk and with any arguments that fit in a message. -/
theorem remote_extent {proc : Nat} {p : Procedure Disk Uninit}
    (registered : extentProcs proc = some p) (request reply : Memory)
    {there back : Marshall → Memory} (thereCopies : ∀ m : Marshall, m.Copied (there m))
    (backCopies : ∀ m : Marshall, m.Copied (back m)) (h : ReqHeader) (uninit : Uninit) (d : Disk)
    (values : Values p.args) (total : rpcHeaderSz + (Values.encode p.args values).length ≤ 2 ^ 30)
    (r target : p.result.Raw) :
    p.remote request reply there back h uninit d values r target =
      p.meth uninit d values r := by
  have plain := extent_plain registered
  rw [remote_call p request reply thereCopies backCopies h uninit d (Values.valid p.args plain.canonical values) total
    (plain.fits uninit d values r) (fun appends => absurd appends plain.overwrites)]
  cases given : p.meth uninit d values r with
  | none => rfl
  | some result =>
      exact Option.filter_some_pos (decide_eq_true (plain.succeeds uninit d values r result given))

theorem remote_extent_put :
    ExtentServer.put.remote (fun _ => 0) (fun _ => 0) Marshall.buf Marshall.buf
        { xid := 2, proc := 0x6001, cltNonce := 5, srvNonce := 9, xidRep := 1 } .zero
        (FileSystem.construct .zero) ((1 : UInt64), ([104, 105] : List UInt8), ()) (0 : Int32)
        (0 : Int32) =
      ExtentServer.put.meth .zero (FileSystem.construct .zero)
        ((1 : UInt64), ([104, 105] : List UInt8), ()) (0 : Int32) :=
  @remote_extent ExtentProtocol.put ExtentServer.put rfl (fun _ => 0) (fun _ => 0) Marshall.buf
    Marshall.buf (fun _m _address _lower _upper => rfl) (fun _m _address _lower _upper => rfl) _ _ _
    _ (by decide) _ _

end CseLab.Rpc
