import Horizon.Ipc.Message
import Horizon.Multitask.Scheduler

/-!
# Horizon — message system calls (`core/system/message`, `core/system/control`)

`send`, `recv`, `peek`, `drop`, `wait` and `yield`, and the kernel's own `internal_ksend`.
Interrupts stay off inside the kernel, so each of them is one atomic step.

`struct msg` has 28 bytes: the port at offset 0, the code at 4, three arguments at 8, 12 and
16, the payload buffer at 20 and its size at 24.
-/

namespace Horizon

open StateError

/-- `sizeof(struct msg)`. -/
def msgSize : Word := 28

def record (event : IpcEvent) : KernelM Unit :=
  modify fun k => { k with history := k.history ++ [event] }

/-- Would a message from `port` wake the thread? -/
def Thread.wokenBy (t : Thread) (port : IpcPort) : Bool :=
  t.state = .waiting ∧ portCompare t.syscallInfo.waitFor port

/-! ## Sending -/

/-- `message_add`'s reads of the message at `src`. -/
def fetchMsg (src : Word) (dest : IpcPort) (buf : Word) : KernelM Msg := do
  dassert (src ≠ 0)
  let code ← userWord (src + 4)
  let arg0 ← userWord (src + 8)
  let arg1 ← userWord (src + 12)
  let arg2 ← userWord (src + 16)
  let size ← userWord (src + 24)
  return { dest, code, args := #v[arg0, arg1, arg2], buf, size }

/-- Block the caller until its payload is received. -/
def blockCaller (caller : ThreadUid) (addr size : Word) : KernelM Unit := do
  schedulerLock
  schedulerRemove caller
  modifyThread caller fun t =>
    { t with
      state := .sending
      syscallInfo := { t.syscallInfo with payloadAddr := addr, payloadSize := size } }

/-- Queue the message and wake the target if that is what it waits for. -/
def deliver (target : ThreadUid) (port : IpcPort) (info : KernelM Msg)
    (event : Msg → IpcEvent) : KernelM Unit := do
  let woken := ((← get).thread target).wokenBy port
  -- `woken` determines if the message is placed at the head or the tail.
  let msg ← messageAdd target port info woken
  record (event msg)
  runIf woken (schedulerAdd target)

/-- The part of `syscall_send` after the payload has been dealt with. -/
def sendDeliver (caller target : ThreadUid) (port : IpcPort) (src : Word) (dest : IpcPort)
    (buf : Word) : KernelM Unit := do
  deliver target port (fetchMsg src dest buf) (.sent caller target)
  unlockIfLocked

/-- The part of `syscall_send` after the target has been found. -/
def sendPayload (caller target : ThreadUid) (port : IpcPort) (src : Word) (dest : IpcPort) :
    KernelM Unit := do
  -- Set the return value now; with a payload the caller is removed from the queue.
  syscallReturnSet eNONE
  let buf ← userWord (src + 20)
  -- A payload requires the sender to block.
  if buf ≠ 0 then
    let size ← userWord (src + 24)
    if size = 0 then return ← syscallReturnSet eSIZE
    if (← virtualIsMapped caller.pid buf size) ≠ 1 then return ← syscallReturnSet eADDR
    blockCaller caller buf size
    sendDeliver caller target port src dest buf
  else
    sendDeliver caller target port src dest buf

def syscallSend (src : Word) : KernelM Unit := do
  let caller := (← get).schedulerCurr
  let port ← portFromUid caller
  if (← virtualIsMapped caller.pid src msgSize) ≠ 1 then return ← syscallReturnSet ePARAM
  let dest := IpcPort.ofRaw (← userWord src)
  if portCompare dest port then return ← syscallReturnSet ePARAM
  let target := (← get).portToUid dest caller.pid
  if target.pid = 0 then return ← syscallReturnSet eINVALID
  if (← get).live target = false then return ← syscallReturnSet eNOTAVAIL
  let proc ← derefProcess target.pid
  if processMessageMax ≤ proc.msgInfo.count then return ← syscallReturnSet eNORES
  sendPayload caller target port src dest

/-- Send a message from the kernel itself. -/
def internalKsend (port : IpcPort) (code : Word) (args : MsgArgs) : KernelM Unit := do
  let target := (← get).portToUid port 0
  dassert (target ≠ 0)
  let proc ← derefProcess target.pid
  failIf (processMessageMax ≤ proc.msgInfo.count) .assertion
  let _ ← derefThread target
  deliver target .kernel (pure { dest := port, code, args }) (.ksent target)

/-! ## Receiving -/

/-- `memcpy` of a payload chunk: `n` bytes from physical address `phys` to `addrTo`. The
chunk shows up in the log under the address it has in the sender. -/
def copyBytes (phys : Word) : Nat → Word → Word → KernelM Unit
  | 0, _, _ => return
  | n + 1, addrFrom, addrTo => do
      touch .read addrFrom
      userByteSet addrTo ((← get).vm.ram phys)
      copyBytes (phys + 1) n (addrFrom + 1) (addrTo + 1)

/-- `min` of `util/compare.h`. -/
def wordMin (x y : Word) : Word := if x < y then x else y

/-- The copy loop of `syscall_recv`. Every round copies at least one byte. -/
def copyPayload (owner : Pid) (finish : Word) : Nat → Word → Word → KernelM Unit
  | 0, _, _ => throw .hang
  | fuel + 1, addrFrom, addrTo => do
      if addrTo < finish then
        let proc ← derefProcess owner
        let aligned := addrAlign addrFrom archPgsize
        -- A page that is not mapped yields `NULL`, which is then mapped like any frame.
        let frame := ((← get).vm.pagingMappingGet proc.addrSpace aligned).getD 0
        let diff := addrFrom - aligned
        let toCopy := wordMin (archPgsize - diff) (finish - addrTo)
        copyBytes (frame ++ diff.setWidth 12) toCopy.toNat addrFrom addrTo
        copyPayload owner finish fuel (addrFrom + toCopy) (addrTo + toCopy)

/-- Receive the payload of the head message from a live sender. The result is the payload's
size, or the error to return. -/
def recvPayload (caller sender : ThreadUid) (dest : Word) : KernelM (Except Word Word) := do
  let info := (← derefThread sender).syscallInfo
  let owner := ((← get).thread sender).owner
  let addrTo ← userWord (dest + 20)
  let sizeTo ← userWord (dest + 24)
  if sizeTo = 0 ∨ sizeTo < info.payloadSize then return .error eSIZE
  if (← virtualIsMapped caller.pid addrTo info.payloadSize) ≠ 1 then return .error eADDR
  copyPayload owner (addrTo + info.payloadSize) (info.payloadSize.toNat + 1) info.payloadAddr
    addrTo
  schedulerAdd sender
  return .ok info.payloadSize

/-- The end of `syscall_recv`: the payload does not exist or was valid, get the rest. -/
def recvFinish (caller : ThreadUid) (dest recvSize : Word) : KernelM Unit := do
  let envelope ← messageRemove caller dest
  record (.removed caller envelope)
  syscallReturnSet recvSize

def syscallRecv (dest : Word) : KernelM Unit := do
  let caller := (← get).schedulerCurr
  if (← virtualIsMapped caller.pid dest msgSize) ≠ 1 then return ← syscallReturnSet ePARAM
  if (← derefThread caller).msgInfo.count = 0 then return ← syscallReturnSet eNOTAVAIL
  -- Peek the message first: the payload info of `dest` has not been confirmed valid yet.
  let (port, hasPayload) ← messagePeek caller
  let sender := (← get).portToUid port 0
  if hasPayload ∧ sender ≠ 0 then
    match ← recvPayload caller sender dest with
    | .error code => syscallReturnSet code
    | .ok recvSize => recvFinish caller dest recvSize
  else
    recvFinish caller dest 0

def syscallPeek : KernelM Unit := do
  let caller := (← get).schedulerCurr
  if (← derefThread caller).msgInfo.count = 0 then return ← syscallReturnSet eNOTAVAIL
  let (port, hasPayload) ← messagePeek caller
  let sender := (← get).portToUid port 0
  -- The payload can no longer be received if the sender is gone.
  if hasPayload ∧ sender ≠ 0 then
    syscallReturnSet (← derefThread sender).syscallInfo.payloadSize
  else
    syscallReturnSet 0

/-- `info` may be `NULL`, but `info->from` is read back either way. -/
def syscallDrop (info : Word) : KernelM Unit := do
  let caller := (← get).schedulerCurr
  let mapped ← virtualIsMapped caller.pid info msgSize
  if info ≠ 0 ∧ mapped ≠ 1 then return ← syscallReturnSet ePARAM
  if (← derefThread caller).msgInfo.count = 0 then return ← syscallReturnSet eNOTAVAIL
  let envelope ← messageRemove caller info
  record (.removed caller envelope)
  let sender := (← get).portToUid (IpcPort.ofRaw (← userWord info)) caller.pid
  -- If the sender is alive, it needs to be reawoken after blocking for a payload.
  runIf (envelope.payload ∧ sender ≠ 0) (schedulerAdd sender)
  syscallReturnSet eNONE

/-! ## Waiting -/

/-- Take the running thread out of the scheduler until a message from `sender` arrives. -/
def sleepCaller (caller : ThreadUid) (sender : IpcPort) : KernelM Unit := do
  -- Set the return code now; it is not available once the thread is removed.
  syscallReturnSet eNONE
  schedulerLock
  schedulerRemove caller
  modifyThread caller fun t =>
    { t with state := .waiting, syscallInfo := { t.syscallInfo with waitFor := sender } }
  schedulerUnlock

def syscallWait (sender : IpcPort) : KernelM Unit := do
  let caller := (← get).schedulerCurr
  -- The desired message may already be in queue.
  if ← messageFind caller sender then return ← syscallReturnSet eNONE
  let target := (← get).portToUid sender caller.pid
  if target = 0 then return ← syscallReturnSet eINVALID
  -- A port without a process references a local thread; 1 is the wildcard or the kernel.
  let exact := if target.pid = 0 then { target with pid := caller.pid } else target
  if exact.pid.toNat ≠ 1 ∧ (← get).live exact = false then
    return ← syscallReturnSet eNOTAVAIL
  sleepCaller caller sender

def syscallYield : KernelM Unit := do
  syscallReturnSet eNONE
  schedulerNext

end Horizon
