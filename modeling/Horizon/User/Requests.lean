import Horizon.State

/-!
# Horizon — the message loop of the servers (`user/util-i586/msg.h`)

The servers `vfsd`, `fatfs`, `vgatty` and `idehdd` share one main loop. They wait for a message with
`msg_get_waiting`, handle it, and free the buffer of its payload. The handlers only read the `struct
msg` of the request, so that a round of the loop is what is left of it without them.

The system calls and `malloc` are part of the environment: a `Round` has what they return.
-/

namespace Horizon

/-- What the calls of one round return. -/
structure Round where
  /-- The size of the payload that waits, -1 if there is no message. -/
  peek : Word
  /-- The buffer that `malloc` returns, if it is called. -/
  block : Word
  /-- The message that `recv` takes from the queue and the result; none if the call fails. -/
  recv : Option (Envelope × Word)

/-- What a program asks of its heap. -/
inductive HeapCall where
  | malloc (ptr : Word)
  | free (ptr : Word)
  deriving DecidableEq, Repr

/-- The one `struct msg` of a server, and what has been done with the buffers of requests. -/
structure MsgLoop where
  req : Msg
  calls : List HeapCall := []

def msgAttachPayload (m : Msg) (ptr size : Word) : Msg := { m with buf := ptr, size }

/-- What the kernel stores when a message is received: the payload fields are not among it. -/
def Msg.receive (m : Msg) (e : Envelope) : Msg :=
  { m with dest := e.sender, code := e.code, args := e.args }

/-- The result of `recv`. -/
def Round.bytes (r : Round) : Word :=
  match r.recv with
  | some (_, bytes) => bytes
  | none => -1

/-- The `struct msg` after `recv`. -/
def Round.received (r : Round) (m : Msg) : Msg :=
  match r.recv with
  | some (e, _) => m.receive e
  | none => m

def msgGetWaiting (r : Round) (s : MsgLoop) : Word × MsgLoop :=
  if r.peek.toInt < 0 then (-1, s)
  else
    let s :=
      if 0 < r.peek.toInt then
        { req := msgAttachPayload s.req r.block r.peek
          calls := s.calls ++ [.malloc r.block] }
      else s
    let s := { s with req := r.received s.req }
    if r.bytes.toInt < 0 then (-1, s) else (r.bytes, s)

/-- One round of the main loop, the handling of the request left out. -/
def MsgLoop.round (s : MsgLoop) (r : Round) : MsgLoop :=
  let (bytes, s) := msgGetWaiting r s
  if bytes.toInt < 0 then s
  else if s.req.size ≠ 0 then { s with calls := s.calls ++ [.free s.req.buf] }
  else s

end Horizon
