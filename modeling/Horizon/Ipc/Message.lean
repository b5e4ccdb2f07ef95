import Horizon.Ipc.Port
import Horizon.Multitask.Process

/-!
# Horizon — message queues (`core/ipc/message.c`)

A process has 1024 message slots and a bitmap of those in use. Each of its threads has a
queue: a chain of slots through their `next` links, from `msg_info.head` to `msg_info.tail`.

The functions are programs over one control block (`BlockM`), in the pieces between which
the source touches memory that is not in the block: the page under a fresh slot, and the
`struct msg` of the caller. `Block.messageRemove` and its like put the pieces together on the
block alone; the programs of the same name in `KernelM` put them together in the kernel.

Only `message_add` can meet a slot whose page is not mapped: the slots on a queue have been
written before.
-/

namespace Horizon

open StateError

/-- Programs over the control block of one process. -/
abbrev BlockM := EStateM Fault Block

/-- Run a program on the control block of a process. -/
def onBlock {α : Type} (pid : Pid) : BlockM α → KernelM α :=
  zoom (fun k => k.blocks pid) fun b k => k.setBlock pid b

/-- The link `-1` that ends a queue. -/
def noLink : Link := 0xFFFF

/-- `(owner->messages)[index]` for a 16-bit index. -/
def slotIndex (link : Link) : BlockM Nat :=
  if link.toNat < processMessageMax then pure link.toNat else throw .outOfBounds

/-- The words from the message bitmap on: the thread count follows it. -/
def Process.messageWords (p : Process) (i : Nat) : Word :=
  if i < bitmapLength processMessageMax then p.msgInfo.bitmap i
  else BitVec.ofNat 32 p.threadInfo.count

namespace Block

def setMsgInfo (b : Block) (tid : Tid) (info : ThreadMsgInfo) : Block :=
  b.setThread tid { b.threads tid with msgInfo := info }

def setNext (b : Block) (i : Nat) (link : Link) : Block :=
  b.setMessage i { b.messages i with next := link }

def setProcessMsgInfo (b : Block) (info : ProcessMsgInfo) : Block :=
  { b with process := { b.process with msgInfo := info } }

/-- `dassert(thread_get(uid))` for a live process. -/
def assertLive (tid : Tid) : BlockM Unit := do
  if (← get).live tid then pure () else throw .assertion

/-! ## Adding a message -/

/-- Reserve a free message slot. -/
def takeSlot : BlockM Nat := do
  let b ← get
  failIf (processMessageMax < b.process.msgInfo.count) .assertion
  let (found, words) := bitmapFindAndSet b.process.messageWords processMessageMax
  let index ← orThrow .assertion found
  -- Past the last slot when all of them are in use: the bit found is one of the thread count.
  failIf (processMessageMax ≤ index) .outOfBounds
  modify fun b => b.setProcessMsgInfo
    { b.process.msgInfo with
      bitmap := fun i => if i < bitmapLength processMessageMax then words i
        else b.process.msgInfo.bitmap i }
  return index

/-- The queued form of a message. `flags.payload` is computed from the size alone. -/
def envelopeOf (sender : IpcPort) (info : Msg) : Envelope :=
  { sender, code := info.code, args := info.args, payload := 0 < info.size }

/-- Fill a reserved slot and link it into the queue of a thread. -/
def fillSlot (index : Nat) (tid : Tid) (sender : IpcPort) (info : Msg) (head : Bool) :
    BlockM Unit := do
  modify fun b => b.setMessage index { envelopeOf sender info with next := 0 }
  assertLive tid
  let queue := ((← get).threads tid).msgInfo
  let link := BitVec.ofNat 16 index
  if head then
    -- Prepend the message.
    modify fun b => b.setNext index queue.head
    modify fun b => b.setMsgInfo tid
      { queue with head := link, tail := if queue.count = 0 then link else queue.tail }
  else
    -- Or append it.
    if queue.count = 0 then
      modify fun b => b.setMsgInfo tid { queue with head := link }
    else
      let last ← slotIndex queue.tail
      modify fun b => b.setNext last link
    modify fun b => b.setNext index noLink
    modify fun b => b.setMsgInfo tid { (b.threads tid).msgInfo with tail := link }
  modify fun b =>
    b.setProcessMsgInfo { b.process.msgInfo with count := b.process.msgInfo.count + 1 }
  modify fun b => b.setMsgInfo tid
    { (b.threads tid).msgInfo with count := (b.threads tid).msgInfo.count + 1 }

/-! ## Removing a message -/

/-- Free the slot at the head of a queue, and return what it holds. -/
def freeHead (tid : Tid) : BlockM Message := do
  assertLive tid
  let queue := ((← get).threads tid).msgInfo
  failIf (queue.count = 0) .assertion
  let index ← slotIndex queue.head
  let source := (← get).messages index
  modify fun b => b.setProcessMsgInfo
    { b.process.msgInfo with bitmap := bitmapClear b.process.msgInfo.bitmap index }
  return source

/-- Unlink the head of a queue. The comparison of the unsigned `head` with `-1` is made
after promotion to `int`. -/
def unlinkHead (tid : Tid) (source : Message) : BlockM Unit := do
  modify fun b =>
    let queue := (b.threads tid).msgInfo
    b.setMsgInfo tid
      { queue with
        head := source.next
        tail := if (source.next.toNat : Int) = -1 then noLink else queue.tail
        count := queue.count - 1 }
  modify fun b =>
    b.setProcessMsgInfo { b.process.msgInfo with count := b.process.msgInfo.count - 1 }

/-- Get the message at the head of the queue and remove it. -/
def messageRemove (tid : Tid) : BlockM Envelope := do
  let source ← freeHead tid
  unlinkHead tid source
  return source.toEnvelope

/-- Get the sender and payload flag of the head message without dequeue-ing it. -/
def messagePeek (tid : Tid) : BlockM (IpcPort × Bool) := do
  assertLive tid
  let b ← get
  let queue := (b.threads tid).msgInfo
  failIf (queue.count = 0) .assertion
  let index ← slotIndex queue.head
  return ((b.messages index).sender, (b.messages index).payload)

/-! ## Searching a queue -/

/-- The loop of `message_find`: the matching slot and the one visited before it. A chain
that takes more rounds than there are slots has come back to one of them. -/
def findFrom (search : IpcPort) : Nat → Link → Link → BlockM (Option (Link × Link))
  | 0, _, _ => throw .hang
  | fuel + 1, prev, curr =>
      if curr = noLink then return none
      else do
        let index ← slotIndex curr
        let msg := (← get).messages index
        if portCompare search msg.sender then return some (prev, curr)
        else findFrom search fuel curr msg.next

/-- Unlink the slot `curr` behind `prev` and make it the head of the queue. -/
def moveToHead (tid : Tid) (prev curr : Link) : BlockM Unit := do
  modify fun b => b.setNext prev.toNat (b.messages curr.toNat).next
  modify fun b =>
    let queue := (b.threads tid).msgInfo
    b.setMsgInfo tid { queue with tail := if queue.tail = curr then prev else queue.tail }
  modify fun b => b.setNext curr.toNat (b.threads tid).msgInfo.head
  modify fun b => b.setMsgInfo tid { (b.threads tid).msgInfo with head := curr }

/-- Search for a message to bring to the head of the queue. -/
def messageFind (tid : Tid) (search : IpcPort) : BlockM Bool := do
  assertLive tid
  let queue := ((← get).threads tid).msgInfo
  -- If there are no messages, the head is invalid.
  if queue.count = 0 then return false
  match ← findFrom search (processMessageMax + 1) noLink queue.head with
  | none => return false
  | some (prev, curr) =>
      -- No predecessor: the message is already the head.
      if prev = noLink then return true
      moveToHead tid prev curr
      return true

end Block

/-! ## The functions in the kernel -/

/-- The slot that `message_add` takes next. -/
def Kernel.nextSlot (k : Kernel) (pid : Pid) : Option Nat :=
  (bitmapFindAndSet (k.blocks pid).process.messageWords processMessageMax).1

/-- Are the pages of a message slot mapped? The last slot of a page may reach into the next. -/
def Kernel.slotMapped (k : Kernel) (pid : Pid) (index : Nat) : Bool :=
  let slot := k.blockAddr pid + BitVec.ofNat 32 (messageOffset index)
  k.vm.pagingIsMapped k.vm.cr3 slot && k.vm.pagingIsMapped k.vm.cr3 (slot + 23)

/-- Place a message into the target's message queue, at the front if `head`. The program
`info` reads the message from where the pointer of the source points; what it read is
returned. -/
def messageAdd (uid : ThreadUid) (sender : IpcPort) (info : KernelM Msg) (head : Bool) :
    KernelM Msg := do
  let _ ← dassertSome ((← get).processGet uid.pid)
  let index ← onBlock uid.pid Block.takeSlot
  -- `memset(target, …)` is the first access to the slot.
  failIf (!(← get).slotMapped uid.pid index) .pageFault
  let msg ← info
  onBlock uid.pid (Block.fillSlot index uid.tid sender msg head)
  return msg

/-- Store the fields of a message that `message_remove` hands over. -/
def storeMsg (dest : Word) (source : Envelope) : KernelM Unit := do
  userWordSet dest source.sender.raw
  userWordSet (dest + 4) source.code
  userWordSet (dest + 8) source.args[0]
  userWordSet (dest + 12) source.args[1]
  userWordSet (dest + 16) source.args[2]

/-- The words of `args`. -/
def Envelope.arg (e : Envelope) : Nat → Word
  | 0 => e.args[0]
  | 1 => e.args[1]
  | _ => e.args[2]

/-- Get the message at the head of the queue and remove it; `dest` may be `NULL`. -/
def messageRemove (uid : ThreadUid) (dest : Word) : KernelM Envelope := do
  let _ ← dassertSome ((← get).processGet uid.pid)
  let source ← onBlock uid.pid (Block.freeHead uid.tid)
  runIf (dest ≠ 0) (storeMsg dest source.toEnvelope)
  onBlock uid.pid (Block.unlinkHead uid.tid source)
  return source.toEnvelope

/-- Get the sender and payload flag of the head message. -/
def messagePeek (uid : ThreadUid) : KernelM (IpcPort × Bool) := do
  let _ ← dassertSome ((← get).processGet uid.pid)
  onBlock uid.pid (Block.messagePeek uid.tid)

/-- Search for a message to bring to the head of the queue. -/
def messageFind (uid : ThreadUid) (search : IpcPort) : KernelM Bool := do
  let _ ← dassertSome ((← get).processGet uid.pid)
  onBlock uid.pid (Block.messageFind uid.tid search)

end Horizon
