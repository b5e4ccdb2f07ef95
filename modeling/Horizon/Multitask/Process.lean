import Horizon.Memory.Virtual

/-!
# Horizon — processes and threads (`core/multitask/process.c`, `core/multitask/thread.c`)

Creating a process or a thread maps its control block with `virtual_alloc`, which clears
every page it touches from the start of the request to the end of the page. For a thread
that is more than its own block: the blocks of the threads behind it in the page are cleared
too, up to the page boundary, which may lie inside a block. `Thread.wipe n` is the effect on
a block whose first `n` bytes are cleared.

The offsets are those of the i586 ABI: `process_t` has 236 bytes, `message_t` 24 and
`thread_t` 136.
-/

namespace Horizon

open StateError

/-! ## Layout of a control block -/

def processSize : Nat := 236

def messageOffset (i : Nat) : Nat := processSize + 24 * i

def threadSize : Nat := 136

def threadOffset (i : Nat) : Nat := messageOffset processMessageMax + threadSize * i

/-- `BLOCK_DATA_SIZE`: a whole block, rounded up to pages. -/
def blockDataSize : Word := 0x9000

/-- Where the pages that `[offset, offset + size)` touches end. -/
def pagesEnd (offset size : Nat) : Nat := (offset + size + 4095) / 4096 * 4096

/-- Clear the first `n` bytes of a saved register frame. -/
def IntFrame.wipe (n : Nat) (f : IntFrame) : IntFrame :=
  let field := fun offset w => if offset < n then (0 : Word) else w
  { gs := field 0 f.gs, fs := field 4 f.fs, es := field 8 f.es, ds := field 12 f.ds,
    edi := field 16 f.edi, esi := field 20 f.esi, ebp := field 24 f.ebp, esp := field 28 f.esp,
    ebx := field 32 f.ebx, edx := field 36 f.edx, ecx := field 40 f.ecx, eax := field 44 f.eax,
    intNum := field 48 f.intNum, errCode := field 52 f.errCode, eip := field 56 f.eip,
    cs := field 60 f.cs, eflags := field 64 f.eflags, userEsp := field 68 f.userEsp,
    ss := field 72 f.ss }

/-- Clear the first `n` bytes of a thread control block. -/
def Thread.wipe (n : Nat) (t : Thread) : Thread where
  tid := if 0 < n then 0 else t.tid
  version := if 1 < n then 0 else t.version
  owner := if 2 < n then 0 else t.owner
  state := if 4 < n then .new else t.state
  task :=
    { entry := if 8 < n then 0 else t.task.entry
      stack := if 12 < n then 0 else t.task.stack
      frame := t.task.frame.wipe (n - 16) }
  msgInfo :=
    { count := if 92 < n then 0 else t.msgInfo.count
      head := if 96 < n then 0 else t.msgInfo.head
      tail := if 98 < n then 0 else t.msgInfo.tail }
  schedInfo :=
    { timeslice := if 100 < n then 0 else t.schedInfo.timeslice
      next := if 104 < n then {} else t.schedInfo.next
      prev := if 106 < n then {} else t.schedInfo.prev }
  syscallInfo :=
    { waitFor := if 108 < n then {} else t.syscallInfo.waitFor
      shmOffer :=
        { dest := if 112 < n then {} else t.syscallInfo.shmOffer.dest
          addr := if 116 < n then 0 else t.syscallInfo.shmOffer.addr
          size := if 120 < n then 0 else t.syscallInfo.shmOffer.size
          prot := if 124 < n then 0 else t.syscallInfo.shmOffer.prot }
      payloadAddr := if 128 < n then 0 else t.syscallInfo.payloadAddr
      payloadSize := if 132 < n then 0 else t.syscallInfo.payloadSize }

/-- Clear the first `n` bytes of a message slot. -/
def Message.wipe (n : Nat) (m : Message) : Message where
  sender := if 0 < n then {} else m.sender
  code := if 4 < n then 0 else m.code
  args := #v[if 8 < n then 0 else m.args.get 0, if 12 < n then 0 else m.args.get 1,
    if 16 < n then 0 else m.args.get 2]
  next := if 20 < n then 0 else m.next
  payload := if 22 < n then false else m.payload

/-- What is left of the message slots of a block whose first page was cleared. -/
def Block.wipeMessages (b : Block) : Nat → Message := fun i =>
  (b.messages i).wipe (pagesEnd 0 processSize - messageOffset i)

/-- The thread blocks after block `index` has been allocated and cleared. -/
def Block.wipeThreads (b : Block) (index : Nat) : Tid → Thread := fun j =>
  if j.toNat = index then {}
  else if index < j.toNat then
    (b.threads j).wipe (pagesEnd (threadOffset index) threadSize - threadOffset j.toNat)
  else b.threads j

/-- Where the control block of a process starts. -/
def Kernel.blockAddr (k : Kernel) (pid : Pid) : Word :=
  k.vm.blocksBase + BitVec.ofNat 32 pid.toNat * blockDataSize

/-! ## Processes -/

/-- The next version number, `max(1, version + 1)` stored in eight bits. -/
def nextVersion (version : BitVec 8) : BitVec 8 := BitVec.ofNat 8 (max 1 (version.toNat + 1))

/-- `PRIV_DRIVER`. -/
def privDriver : Nat := 2

/-- `PRIV_SERVER`. -/
def privServer : Nat := 1

/-- `PRIV_NONE`. -/
def privNone : Nat := 0

/-- Allocate a new process control block with the given parent ID. -/
def processNew (ppid : Pid) (entry : Word) : KernelM Pid := do
  let (index, blockMap) ← dassertSome (← get).blockMap.findAndSet
  failIf (index ≥ 1024) .outOfBounds
  let pid : Pid := BitVec.ofNat 10 index
  modify fun k => { k with blockMap := blockMap }
  -- Only map in the process portion.
  virtualAlloc 0 ((← get).blockAddr pid) (BitVec.ofNat 32 processSize)
  let k ← get
  let version := nextVersion (k.blockVersions pid)
  modify fun k => { k with blockVersions := Function.update k.blockVersions pid version }
  modify fun k => k.setBlock pid
    { k.blocks pid with process := {}, messages := (k.blocks pid).wipeMessages }
  -- Get extra info from the parent, if valid.
  let parent := (← get).processGet ppid
  let addrSpace ← liftVm pagingDirCreate
  modifyProcess pid fun p =>
    { p with
      pid := pid
      version := version
      parent := if parent.isSome then ppid else 0
      priv := (parent.map Process.priv).getD privDriver
      entry := entry
      addrSpace := addrSpace }
  return pid

/-! ## Threads -/

/-- The words from the thread bitmap on: the version array follows it. -/
def Process.threadWords (p : Process) (i : Nat) : Word :=
  if i < bitmapLength processThreadMax then p.threadInfo.bitmap i
  else
    let v := fun j => p.threadInfo.versions (4 * (i - bitmapLength processThreadMax) + j)
    v 3 ++ v 2 ++ v 1 ++ v 0

/-- Create a new thread in the given process. -/
def threadNew (pid : Pid) (entry : Word) : KernelM ThreadUid := do
  let owner ← dassertSome ((← get).processGet pid)
  let (found, words) := bitmapFindAndSet owner.threadWords processThreadMax
  let index ← dassertSome found
  -- `owner->threads[index]`: past the last slot when all of them are in use.
  failIf (index ≥ processThreadMax) .outOfBounds
  let tid : Tid := BitVec.ofNat 6 index
  modifyProcess pid fun p =>
    { p with threadInfo := { p.threadInfo with
        bitmap := fun i => if i < bitmapLength processThreadMax then words i
          else p.threadInfo.bitmap i } }
  -- This specific thread may not be mapped in yet.
  virtualAlloc 0 ((← get).blockAddr pid + BitVec.ofNat 32 (threadOffset index))
    (BitVec.ofNat 32 threadSize)
  modify fun k => k.setBlock pid
    { k.blocks pid with threads := (k.blocks pid).wipeThreads index }
  let version := nextVersion (owner.threadInfo.versions index)
  modifyProcess pid fun p =>
    { p with threadInfo := { p.threadInfo with
        versions := Function.update p.threadInfo.versions index version
        count := p.threadInfo.count + 1 } }
  let uid : ThreadUid := { pid, tid }
  modifyThread uid fun t =>
    { t with
      tid := tid
      version := version
      owner := pid
      state := .new
      task := { t.task with entry := if entry ≠ 0 then entry else owner.entry } }
  return uid

/-- Destroy a thread in a given process. -/
def threadKill (uid : ThreadUid) : KernelM Unit := do
  let target ← dassertSome ((← get).threadGet uid)
  dassert (target.state ≠ .active)
  modifyProcess uid.pid fun p =>
    { p with threadInfo := { p.threadInfo with
        bitmap := bitmapClear p.threadInfo.bitmap uid.tid.toNat
        count := p.threadInfo.count - 1 } }

def allTids : List Tid := (List.range processThreadMax).map (BitVec.ofNat 6)

/-- The loop of `process_kill` over the thread slots. -/
def killThreads (pid : Pid) : List Tid → KernelM Unit
  | [] => return
  | tid :: rest => do
      runIf (((← get).blocks pid).live tid) (threadKill { pid, tid })
      killThreads pid rest

/-- Free a process control block and its threads. -/
def processKill (pid : Pid) : KernelM Unit := do
  let target ← dassertSome ((← get).processGet pid)
  killThreads pid allTids
  -- Set the block as free and release any allocated objects.
  modify fun k => { k with blockMap := k.blockMap.clear pid.toNat }
  liftVm (pagingDirDestroy target.addrSpace)
  virtualUnmap 0 ((← get).blockAddr pid) blockDataSize

end Horizon
