import CseLab.Rpc.Connection
import CseLab.Rpc.PollMgr

/-! A `connection` under the poll manager: the threads in `send` and `closeconn`,
the two callbacks in the loop's thread, and whatever other connections do to the
manager meanwhile. Each section that holds the connection's `m_` is one action. -/

namespace CseLab.Rpc

open Transition

variable {Thread Handler : Type*}

def PollMgr.add [DecidableEq Thread] [DecidableEq Handler] (p : PollMgr Thread Handler) (fd : Nat)
    (flag : PollFlag) (ch : Handler) : Option (PollMgr Thread Handler) :=
  (p.step (.addCallback fd flag ch)).bind (fun p => p.step .store)

def PollMgr.del [DecidableEq Thread] [DecidableEq Handler] (p : PollMgr Thread Handler) (fd : Nat)
    (flag : PollFlag) : Option (PollMgr Thread Handler) :=
  (p.step (.delCallback fd flag)).bind
    (fun p => if p.owed.isSome then p.step .store else some p)

/-- Where a thread is: in the first loop of `send`, in the second one or past it, in
`send` without `m_` after a failed write, or in `closeconn` past its section. -/
inductive Stage where
  | out
  | waiting
  | writing
  | failing
  | closing
  deriving DecidableEq

/-- A connection and the poll manager it is registered with; `made` says that its
constructor has run. -/
structure Polled (Thread Handler : Type*) where
  fd : Nat
  this : Handler
  made : Bool
  sender : Sender
  rpdu : Charbuf
  stage : Thread → Stage
  mgr : PollMgr Thread Handler

/-- `poll` is the loop, or a call from elsewhere for another descriptor; `remove` is
`block_remove_fd`, called from `send` or `closeconn`. -/
inductive PolledAction (Thread Handler : Type*) where
  | create
  | poll (action : MgrAction Thread Handler)
  | wait (t : Thread)
  | send (t : Thread) (b : List UInt8) (result : WriteResult)
  | finish (t : Thread)
  | close (t : Thread)
  | remove (t : Thread)
  | removed (t : Thread)
  | readCb (stream : List UInt8) (first second : ReadResult) (takes : Bool)
  | writeCb (result : WriteResult)

def Polled.start (Thread : Type*) {Handler : Type*} (pipefd fd : Nat) (this : Handler) :
    Polled Thread Handler :=
  { fd := fd
    this := this
    made := false
    sender := { dead := false, wpdu := .empty, waiters := 0 }
    rpdu := .empty
    stage := fun _ => .out
    mgr := .start Thread Handler pipefd }

/-- What others do: nothing to this descriptor, nor in the name of a thread that
is in the connection, nor a return from the callbacks of the connection. -/
def Polled.foreign (p : Polled Thread Handler) : MgrAction Thread Handler → Bool
  | .addCallback fd _ _ => decide (fd ≠ p.fd)
  | .delCallback fd _ => decide (fd ≠ p.fd)
  | .blockRemoveFd t fd => decide (fd ≠ p.fd ∧ p.stage t = .out)
  | .removed t => decide (p.stage t = .out)
  | .done => decide (p.mgr.loop.callback ≠ some (.read, p.fd)) &&
      decide (p.mgr.loop.callback ≠ some (.write, p.fd))
  | _ => true

variable [DecidableEq Thread] [DecidableEq Handler]

/-- The rest of the section of `send` after the attempt to write. -/
def Polled.sent (p : Polled Thread Handler) (t : Thread) (sender : Sender) :
    Option (Polled Thread Handler) :=
  if p.sender.dead then
    some { p with sender := sender, stage := Function.update p.stage t .out }
  else if sender.dead then
    some { p with sender := sender, stage := Function.update p.stage t .failing }
  else if sender.wpdu.buf.isSome then
    (p.mgr.add p.fd .wronly p.this).map fun mgr =>
      { p with sender := sender, stage := Function.update p.stage t .writing, mgr := mgr }
  else some { p with sender := sender, stage := Function.update p.stage t .out }

/-- A callback that finds the connection broken takes it out of the poll set. -/
def Polled.drop (p : Polled Thread Handler) (broken : Bool) : Option (PollMgr Thread Handler) :=
  if broken then p.mgr.del p.fd .rdwr else some p.mgr

def Polled.readCb (p : Polled Thread Handler) (stream : List UInt8) (first second : ReadResult)
    (takes : Bool) : Option (Polled Thread Handler) :=
  (Receiver.step { dead := p.sender.dead, rpdu := p.rpdu } stream
    (.readCb first second takes)).bind fun (_, receiver, _) =>
      (p.drop (receiver.dead && !p.sender.dead)).bind fun mgr =>
        (mgr.step .done).map fun mgr =>
          { p with
            sender := { p.sender with dead := receiver.dead }
            rpdu := receiver.rpdu
            mgr := mgr }

/-- The section of `write_cb`, and its return to the loop; none on a dead
connection, by the assertion at its head. -/
def Polled.writeCb (p : Polled Thread Handler) (result : WriteResult) :
    Option (Polled Thread Handler) :=
  (p.sender.step (.writeCb result)).bind fun (sender, _) =>
    (if p.sender.wpdu.sz = 0 then p.mgr.del p.fd .wronly else p.drop sender.dead).bind fun mgr =>
      (mgr.step .done).map fun mgr => { p with sender := sender, mgr := mgr }

def Polled.step (p : Polled Thread Handler) :
    PolledAction Thread Handler → Option (Polled Thread Handler)
  | .create =>
      if p.made then none
      else (p.mgr.add p.fd .rdonly p.this).map fun mgr => { p with made := true, mgr := mgr }
  | .poll action =>
      if p.foreign action then (p.mgr.step action).map fun mgr => { p with mgr := mgr } else none
  | .wait t =>
      if p.made ∧ p.stage t = .out then
        (p.sender.step .wait).map fun (sender, _) =>
          { p with sender := sender, stage := Function.update p.stage t .waiting }
      else none
  | .send t b result =>
      if p.made ∧ (p.stage t = .out ∨ p.stage t = .waiting) then
        (p.sender.step (.send (decide (p.stage t = .waiting)) b result)).bind fun (sender, _) =>
          p.sent t sender
      else none
  | .finish t =>
      if p.stage t = .writing then
        (p.sender.step .finish).map fun (sender, _) =>
          { p with sender := sender, stage := Function.update p.stage t .out }
      else none
  | .close t =>
      if p.made ∧ p.stage t = .out then
        if p.sender.dead then some p
        else
          some { p with
            sender := { p.sender with dead := true }
            stage := Function.update p.stage t .closing }
      else none
  | .remove t =>
      if p.stage t = .failing ∨ p.stage t = .closing then
        (p.mgr.step (.blockRemoveFd t p.fd)).map fun mgr => { p with mgr := mgr }
      else none
  | .removed t =>
      (match p.stage t with
      | .failing => some Stage.writing
      | .closing => some Stage.out
      | _ => none).bind fun stage =>
        (p.mgr.step (.removed t)).map fun mgr =>
          { p with stage := Function.update p.stage t stage, mgr := mgr }
  | .readCb stream first second takes =>
      if p.made ∧ p.mgr.loop.callback = some (.read, p.fd) then
        p.readCb stream first second takes
      else none
  | .writeCb result =>
      if p.made ∧ p.mgr.loop.callback = some (.write, p.fd) then p.writeCb result else none

end CseLab.Rpc
