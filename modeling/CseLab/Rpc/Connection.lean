import CseLab.Lib.BigEndian
import CseLab.Lib.Transition
import CseLab.Rpc.Marshall

/-! One direction of a `connection`: the PDU being written at one end, the PDU
being read at the other, and the byte stream between them. Each section that
holds `m_` is one action, with the results of its system calls; an action is
undefined where the source would abort or leave a buffer. -/

namespace CseLab.Rpc

open BigEndian

def maxPdu : Nat := 10 * 2 ^ 20

/-- A `charbuf`. For `rpdu_` the list has the bytes read so far. -/
structure Charbuf where
  buf : Option (List UInt8)
  sz : Int
  solong : Int

def Charbuf.empty : Charbuf := { buf := none, sz := 0, solong := 0 }

/-! ### Writing -/

/-- What `write` returns: a count, or -1 with `EAGAIN` or another error. -/
inductive WriteResult where
  | wrote (n : Nat)
  | again
  | failed

def withLength (sz : Int) (buf : List UInt8) : List UInt8 :=
  bytes32 (Int32.ofInt sz).toUInt32 ++ buf.drop sizeofRpcSz

/-- `writepdu`: the bytes put on the stream, the buffer afterwards, and the
value returned. `write` takes no more bytes than it is offered. -/
def writepdu (wpdu : Charbuf) (result : WriteResult) : Option (List UInt8 × Charbuf × Bool) :=
  match wpdu.buf with
  | none => none
  | some buf =>
      if wpdu.solong = wpdu.sz then some ([], wpdu, true)
      else
        let buf := if wpdu.solong = 0 then withLength wpdu.sz buf else buf
        match result with
        | .wrote n =>
            if (n : Int) ≤ wpdu.sz - wpdu.solong then
              some ((buf.drop wpdu.solong.toNat).take n,
                { wpdu with buf := some buf, solong := wpdu.solong + n }, true)
            else none
        | .again => some ([], { wpdu with buf := some buf }, true)
        | .failed => some ([], { buf := some buf, sz := 0, solong := -1 }, false)

/-- The writing half of a connection; `wpdu_.buf` is set as long as a thread
that obtained it has not left `send`. -/
structure Sender where
  dead : Bool
  wpdu : Charbuf
  waiters : Nat

/-- A thread in `send` waits for `wpdu_`, goes past the first loop, or goes past its own
loop and gives `wpdu_` up; `write_cb` is called; or the connection is closed, by
`closeconn` or in `read_cb`. -/
inductive SendAction where
  | wait
  | send (waited : Bool) (b : List UInt8) (result : WriteResult)
  | writeCb (result : WriteResult)
  | finish
  | close

def Sender.complete (s : Sender) : Bool :=
  s.dead || decide (s.wpdu.solong < 0) || decide (s.wpdu.sz ≤ s.wpdu.solong)

def Sender.release (s : Sender) : Sender := { s with wpdu := Charbuf.empty }

def Sender.resume (s : Sender) (waited : Bool) : Sender :=
  { s with waiters := if waited then s.waiters - 1 else s.waiters }

/-- `send` after its first loop: on a dead connection it returns, else it takes
`wpdu_` and starts to write. It holds `wpdu_` until the PDU is complete. -/
def Sender.claim (s : Sender) (b : List UInt8) (result : WriteResult) :
    Option (Sender × List UInt8) :=
  if s.dead then some (s, [])
  else if s.wpdu.buf.isSome then none
  else
    (writepdu { buf := some b, sz := b.length, solong := 0 } result).map
      fun (bytes, wpdu, ok) =>
        let s := { s with wpdu := wpdu, dead := !ok }
        (if ok && s.complete then s.release else s, bytes)

def Sender.step (s : Sender) : SendAction → Option (Sender × List UInt8)
  | .wait =>
      if s.dead = false ∧ s.wpdu.buf.isSome then some ({ s with waiters := s.waiters + 1 }, [])
      else none
  | .send waited b result =>
      if waited = true ∧ s.waiters = 0 then none
      else (s.resume waited).claim b result
  | .writeCb result =>
      if s.dead then none
      else if s.wpdu.sz = 0 then some (s, [])
      else
        (writepdu s.wpdu result).map fun (bytes, wpdu, ok) =>
          ({ s with wpdu := wpdu, dead := !ok }, bytes)
  | .finish =>
      if s.wpdu.buf.isSome ∧ s.complete = true then some (s.release, []) else none
  | .close => some ({ s with dead := true }, [])

/-! ### Reading -/

/-- What `read` returns: a positive count, or nothing, with `errno` equal to
`EAGAIN` (which an earlier call may have left there) or not. -/
inductive ReadResult where
  | got (n : Nat)
  | again
  | failed

/-- The part of `readpdu` that reads the length word, when there is none yet:
how many bytes it takes from the stream, and the buffer if it is to go on. -/
def readLength (rpdu : Charbuf) (stream : List UInt8) (result : ReadResult) :
    Option (Nat × Option Charbuf) :=
  match result with
  | .again => none
  | .failed => some (0, none)
  | .got n =>
      if n = 0 ∨ sizeofRpcSz < n ∨ stream.length < n then none
      else if n < sizeofRpcSz then some (n, none)
      else
        let sz := (word32 (stream.take sizeofRpcSz)).toInt32.toInt
        if maxPdu < sz then some (n, none)
        else if sz < sizeofRpcSz ∨ rpdu.buf.isSome then none
        else some (n, some { buf := some (stream.take sizeofRpcSz), sz := sz, solong := sizeofRpcSz })

def readRest (rpdu : Charbuf) (stream : List UInt8) (result : ReadResult) :
    Option (Nat × Charbuf × Bool) :=
  match result with
  | .again => some (0, rpdu, true)
  | .failed => some (0, Charbuf.empty, false)
  | .got n =>
      if n = 0 ∨ rpdu.sz - rpdu.solong < n ∨ stream.length < n then none
      else
        some (n, { rpdu with buf := rpdu.buf.map (· ++ stream.take n), solong := rpdu.solong + n },
          true)

def readpdu (rpdu : Charbuf) (stream : List UInt8) (first second : ReadResult) :
    Option (Nat × Charbuf × Bool) :=
  if rpdu.sz = 0 then
    (readLength rpdu stream first).bind fun (taken, next) =>
      match next with
      | none => some (taken, rpdu, false)
      | some rpdu =>
          (readRest rpdu (stream.drop taken) second).map fun (more, rpdu, ok) =>
            (taken + more, rpdu, ok)
  else readRest rpdu stream second

structure Receiver where
  dead : Bool
  rpdu : Charbuf

/-- `read_cb`, with the results of its reads and of `got_pdu`; or the connection is
closed, by `closeconn` or after a failed write. -/
inductive ReceiveAction where
  | readCb (first second : ReadResult) (takes : Bool)
  | close

/-- `got_pdu` gets the PDU once it is whole, whether this call completed it or
an earlier one that was refused. -/
def Receiver.offer (r : Receiver) (takes : Bool) : Receiver × Option (List UInt8) :=
  match r.rpdu.buf with
  | none => (r, none)
  | some b =>
      if r.rpdu.sz = r.rpdu.solong ∧ takes = true then
        ({ r with rpdu := Charbuf.empty }, some b)
      else (r, none)

/-- One section of the reading half: how many bytes it takes from the stream,
and the PDU that `got_pdu` accepts. -/
def Receiver.step (r : Receiver) (stream : List UInt8) :
    ReceiveAction → Option (Nat × Receiver × Option (List UInt8))
  | .close => some (0, { r with dead := true }, none)
  | .readCb first second takes =>
      if r.dead then some (0, r, none)
      else
        (if r.rpdu.buf.isNone ∨ r.rpdu.solong < r.rpdu.sz then
          readpdu r.rpdu stream first second
        else some (0, r.rpdu, true)).map fun (taken, rpdu, succ) =>
          (taken, ({ dead := !succ, rpdu := rpdu : Receiver }).offer takes)

/-! ### Both ends -/

/-- The two ends and the stream, with every byte written so far, how many of
them have been read, and two logs: the buffers in the order in which their
threads obtained `wpdu_`, and the PDUs accepted. -/
structure Link where
  sender : Sender
  receiver : Receiver
  written : List UInt8
  taken : Nat
  sent : List (List UInt8)
  accepted : List (List UInt8)

def Link.start : Link :=
  { sender := { dead := false, wpdu := Charbuf.empty, waiters := 0 }
    receiver := { dead := false, rpdu := Charbuf.empty }
    written := []
    taken := 0
    sent := []
    accepted := [] }

inductive LinkAction where
  | send (action : SendAction)
  | receive (action : ReceiveAction)

def Sender.obtains (s : Sender) : SendAction → Option (List UInt8)
  | .send _ b _ => if s.dead then none else some b
  | _ => none

/-- Callers pass buffers that have room for a header and a size that is an `int`. -/
def SendAction.wellFormed : SendAction → Bool
  | .send _ b _ => decide (rpcHeaderSz ≤ b.length ∧ b.length ≤ intMax)
  | _ => true

def Link.step (l : Link) : LinkAction → Option Link
  | .send action =>
      if action.wellFormed then
        (l.sender.step action).map fun (sender, bytes) =>
          { l with
            sender := sender
            written := l.written ++ bytes
            sent := l.sent ++ (l.sender.obtains action).toList }
      else none
  | .receive action =>
      (l.receiver.step (l.written.drop l.taken) action).map fun (taken, receiver, pdu) =>
        { l with
          receiver := receiver
          taken := l.taken + taken
          accepted := l.accepted ++ pdu.toList }

end CseLab.Rpc
