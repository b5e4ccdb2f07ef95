import Horizon.Memory.Paging

/-!
# Horizon — control blocks and kernel state

The records of `core/multitask/process.h`, `core/multitask/thread.h` and
`core/ipc/message.h`, and the kernel's static variables. A control block is a record: its
placement in kernel pages is not modelled, except for the one effect of placement that
reaches other records, the zeroing done by `virtual_alloc` (`Thread.wipe`).

A bit-field union is kept as its field view. The fields of `thread_uid` and of a port cover
the whole machine word, so the `raw` view is determined by them and comparing the raw words
is comparing the fields.

Two components of `Kernel` are history variables and nothing in the kernel reads them:
`history` lists the messages sent and removed, `touched` the bytes accessed through
user-supplied addresses.
-/

namespace Horizon

/-- `union thread_uid`: a 10-bit process and a 6-bit thread index. -/
@[ext] structure ThreadUid where
  pid : BitVec 10 := 0
  tid : BitVec 6 := 0
  deriving DecidableEq, Repr

abbrev Pid := BitVec 10

abbrev Tid := BitVec 6

namespace ThreadUid

instance : Zero ThreadUid := ⟨{}⟩

def raw (uid : ThreadUid) : BitVec 16 := uid.tid ++ uid.pid

def ofRaw (raw : BitVec 16) : ThreadUid :=
  { pid := raw.setWidth 10, tid := (raw >>> 10).setWidth 6 }

@[simp] theorem zero_pid : (0 : ThreadUid).pid = 0 := rfl

@[simp] theorem zero_tid : (0 : ThreadUid).tid = 0 := rfl

end ThreadUid

/-- `union port_fmt`, the format of `ipcport_t`. -/
structure IpcPort where
  pid : BitVec 10 := 0
  pvn : BitVec 8 := 0
  tid : BitVec 6 := 0
  tvn : BitVec 8 := 0
  deriving DecidableEq, Repr

namespace IpcPort

def ofRaw (raw : Word) : IpcPort :=
  { pid := raw.setWidth 10, pvn := (raw >>> 10).setWidth 8,
    tid := (raw >>> 18).setWidth 6, tvn := (raw >>> 24).setWidth 8 }

def raw (port : IpcPort) : Word := port.tvn ++ port.tid ++ port.pvn ++ port.pid

/-- `IPORT_ANY`. -/
def any : IpcPort := { pid := 1 }

/-- `IPORT_KERNEL`. -/
def kernel : IpcPort := { pid := 1, tid := 1 }

end IpcPort

/-! ## Messages -/

abbrev MsgArgs := Vector Word 3

/-- `{ 0, 0, 0 }`. -/
def noArgs : MsgArgs := #v[0, 0, 0]

/-- `struct msg`, as a process passes it to `send`; `dest` is its `to` field. -/
structure Msg where
  dest : IpcPort
  code : Word
  args : MsgArgs
  buf : Word := 0
  size : Word := 0
  deriving DecidableEq

/-- What a queued message carries: `struct message` without its link. -/
structure Envelope where
  sender : IpcPort := {}
  code : Word := 0
  args : MsgArgs := noArgs
  payload : Bool := false
  deriving DecidableEq

/-- The 16-bit links of a message queue: `int16_t next`, `uint16_t head, tail`. -/
abbrev Link := BitVec 16

/-- `struct message`. -/
structure Message extends Envelope where
  next : Link := 0

/-- `PROCESS_MESSAGE_MAX`. -/
def processMessageMax : Nat := 1024

/-- `PROCESS_THREAD_MAX`. -/
def processThreadMax : Nat := 64

/-! ## Threads -/

inductive ThreadState where
  | new
  | active
  | sending
  | waiting
  | old
  deriving DecidableEq, Repr

/-- The registers pushed to the stack during an interrupt. -/
structure IntFrame where
  gs : Word := 0
  fs : Word := 0
  es : Word := 0
  ds : Word := 0
  edi : Word := 0
  esi : Word := 0
  ebp : Word := 0
  esp : Word := 0
  ebx : Word := 0
  edx : Word := 0
  ecx : Word := 0
  eax : Word := 0
  intNum : Word := 0
  errCode : Word := 0
  eip : Word := 0
  cs : Word := 0
  eflags : Word := 0
  userEsp : Word := 0
  ss : Word := 0
  deriving DecidableEq

structure TaskInfo where
  entry : Word := 0
  stack : Word := 0
  frame : IntFrame := {}

structure ThreadMsgInfo where
  count : Nat := 0
  head : Link := 0
  tail : Link := 0

structure SchedInfo where
  timeslice : Word := 0
  next : ThreadUid := {}
  prev : ThreadUid := {}

/-- `struct shm`; `dest` is its `to` field. -/
structure Shm where
  dest : IpcPort := {}
  addr : Word := 0
  size : Word := 0
  prot : BitVec 8 := 0

structure SyscallInfo where
  waitFor : IpcPort := {}
  shmOffer : Shm := {}
  payloadAddr : Word := 0
  payloadSize : Word := 0

/-- A thread control block. The default value is the all-zero block. -/
structure Thread where
  tid : Tid := 0
  version : BitVec 8 := 0
  owner : Pid := 0
  state : ThreadState := .new
  task : TaskInfo := {}
  msgInfo : ThreadMsgInfo := {}
  schedInfo : SchedInfo := {}
  syscallInfo : SyscallInfo := {}

/-! ## Processes -/

structure ProcessMsgInfo where
  count : Nat := 0
  bitmap : Nat → Word := fun _ => 0

structure ProcessThreadInfo where
  count : Nat := 0
  bitmap : Nat → Word := fun _ => 0
  versions : Nat → BitVec 8 := fun _ => 0

/-- A process control block. -/
structure Process where
  pid : Pid := 0
  version : BitVec 8 := 0
  parent : Pid := 0
  priv : Nat := 0
  entry : Word := 0
  addrSpace : Frame := 0
  msgInfo : ProcessMsgInfo := {}
  threadInfo : ProcessThreadInfo := {}

/-- `struct block_data`: everything the kernel keeps for one process. -/
structure Block where
  process : Process := {}
  messages : Nat → Message := fun _ => {}
  threads : Tid → Thread := fun _ => {}

namespace Block

/-- Is the thread slot in use? -/
def live (b : Block) (tid : Tid) : Bool := bitmapTest b.process.threadInfo.bitmap tid.toNat

def setThread (b : Block) (tid : Tid) (t : Thread) : Block :=
  { b with threads := Function.update b.threads tid t }

def setMessage (b : Block) (i : Nat) (m : Message) : Block :=
  { b with messages := Function.update b.messages i m }

end Block

/-! ## The kernel -/

/-- What an interrupt line runs (`callback_pairs[irq_to_isr(irq)].handle`). -/
inductive IrqHandle where
  | none
  | timerTick
  | irqCallback
  deriving DecidableEq

/-- An entry of the message history. -/
inductive IpcEvent where
  | sent (caller target : ThreadUid) (info : Msg)
  | ksent (target : ThreadUid) (info : Msg)
  | removed (caller : ThreadUid) (envelope : Envelope)

inductive AccessKind where
  | read
  | write
  deriving DecidableEq

/-- One access through a user-supplied address. -/
structure Access where
  kind : AccessKind
  addr : Word

/-- The state of the kernel. The control blocks are records under their PIDs, the memory and its
page tables are `vm`, and two lists record what a run has done. -/
structure Kernel where
  blocks : Pid → Block
  blockMap : Bmstack
  blockVersions : Pid → BitVec 8
  activeThread : ThreadUid
  locked : Bool
  /-- The interrupt frame `curr_frame` points to. -/
  frame : IntFrame
  serviceIds : Nat → IpcPort
  irqHandle : Nat → IrqHandle
  irqEnabled : Nat → Bool
  vm : Vm
  history : List IpcEvent
  touched : List Access

/-- Programs of the kernel proper. -/
abbrev KernelM := EStateM Fault Kernel

/-- Run a memory program on the memory component. -/
def liftVm {α : Type} : VmM α → KernelM α :=
  StateError.zoom Kernel.vm fun vm k => { k with vm := vm }

def dassert (c : Prop) [Decidable c] : KernelM Unit :=
  if c then pure () else throw .assertion

/-- `dassert` on a pointer: the record behind it. -/
def dassertSome {α : Type} (o : Option α) : KernelM α := StateError.orThrow .assertion o

namespace Kernel

/-- Get the control block of a process; `none` for a dead or reserved PID. -/
def processGet (k : Kernel) (pid : Pid) : Option Process :=
  if pid.toNat < 2 then none
  else if k.blockMap.test pid.toNat then some (k.blocks pid).process else none

/-- Get the control block of a thread; `none` if it, or its process, is not live. -/
def threadGet (k : Kernel) (uid : ThreadUid) : Option Thread :=
  match k.processGet uid.pid with
  | none => none
  | some _ =>
      if (k.blocks uid.pid).live uid.tid then some ((k.blocks uid.pid).threads uid.tid)
      else none

/-- Get the currently running thread, zero while the scheduler is locked. -/
def schedulerCurr (k : Kernel) : ThreadUid := if k.locked then 0 else k.activeThread

/-- PIDs 0 and 1 are never handed out. -/
def liveProcess (k : Kernel) (pid : Pid) : Bool :=
  2 ≤ pid.toNat && k.blockMap.test pid.toNat

/-- Is it a thread of a live process, with its bit set? -/
def live (k : Kernel) (uid : ThreadUid) : Bool :=
  k.liveProcess uid.pid && (k.blocks uid.pid).live uid.tid

/-- The control block of a thread, live or not. -/
def thread (k : Kernel) (uid : ThreadUid) : Thread := (k.blocks uid.pid).threads uid.tid

theorem processGet_eq (k : Kernel) (pid : Pid) :
    k.processGet pid = if k.liveProcess pid then some (k.blocks pid).process else none := by
  unfold processGet liveProcess
  by_cases h : pid.toNat < 2
  · rw [if_pos h, decide_eq_false (show ¬ 2 ≤ pid.toNat by omega)]
    rfl
  · rw [if_neg h, decide_eq_true (show 2 ≤ pid.toNat by omega), Bool.true_and]

theorem threadGet_eq (k : Kernel) (uid : ThreadUid) :
    k.threadGet uid = if k.live uid then some (k.thread uid) else none := by
  unfold threadGet live thread
  rw [processGet_eq]
  cases k.liveProcess uid.pid <;> simp

theorem processGet_eq_some {k : Kernel} {pid : Pid} {p : Process} :
    k.processGet pid = some p ↔ k.liveProcess pid = true ∧ p = (k.blocks pid).process := by
  rw [processGet_eq]
  cases k.liveProcess pid <;> simp [eq_comm]

theorem threadGet_eq_some {k : Kernel} {uid : ThreadUid} {t : Thread} :
    k.threadGet uid = some t ↔ k.live uid = true ∧ t = k.thread uid := by
  rw [threadGet_eq]
  cases k.live uid <;> simp [eq_comm]

theorem liveProcess_of_live {k : Kernel} {uid : ThreadUid} (h : k.live uid = true) :
    k.liveProcess uid.pid = true := by
  simp only [live, Bool.and_eq_true] at h
  exact h.1

def setBlock (k : Kernel) (pid : Pid) (b : Block) : Kernel :=
  { k with blocks := Function.update k.blocks pid b }

theorem blocks_setBlock {k : Kernel} {b : Block} {pid p : Pid} :
    (k.setBlock pid b).blocks p = if p = pid then b else k.blocks p := by
  by_cases h : p = pid
  · subst h
    rw [if_pos rfl]
    exact Function.update_self ..
  · rw [if_neg h]
    exact Function.update_of_ne h _ _

def setThread (k : Kernel) (uid : ThreadUid) (t : Thread) : Kernel :=
  k.setBlock uid.pid ((k.blocks uid.pid).setThread uid.tid t)

end Kernel

/-- Update the control block a `thread_t*` points to. -/
def modifyThread (uid : ThreadUid) (f : Thread → Thread) : KernelM Unit :=
  modify fun k => k.setThread uid (f (k.thread uid))

/-- Update the control block a `process_t*` points to. -/
def modifyProcess (pid : Pid) (f : Process → Process) : KernelM Unit :=
  modify fun k => k.setBlock pid { k.blocks pid with process := f (k.blocks pid).process }

/-- Dereference the result of `thread_get`. -/
def derefThread (uid : ThreadUid) : KernelM Thread := do
  StateError.orThrow .nullDeref ((← get).threadGet uid)

/-- Dereference the result of `process_get`. -/
def derefProcess (pid : Pid) : KernelM Process := do
  StateError.orThrow .nullDeref ((← get).processGet pid)

theorem dassert_eq_ok {c : Prop} [Decidable c] {u : Unit} {k k' : Kernel} :
    dassert c k = .ok u k' ↔ c ∧ k = k' := by
  by_cases h : c <;> simp [dassert, h]

theorem dassertSome_threadGet_eq_ok {uid : ThreadUid} {t : Thread} {k k₀ k' : Kernel} :
    dassertSome (k₀.threadGet uid) k = .ok t k' ↔
      k₀.live uid = true ∧ t = k₀.thread uid ∧ k = k' := by
  rw [dassertSome, StateError.orThrow_eq_ok, Kernel.threadGet_eq_some, and_assoc]

theorem derefThread_eq_ok {uid : ThreadUid} {t : Thread} {k k' : Kernel} :
    derefThread uid k = .ok t k' ↔ k.live uid = true ∧ t = k.thread uid ∧ k = k' := by
  rw [derefThread, StateError.get_bind_apply, StateError.orThrow_eq_ok,
    Kernel.threadGet_eq_some, and_assoc]

theorem derefProcess_eq_ok {pid : Pid} {p : Process} {k k' : Kernel} :
    derefProcess pid k = .ok p k' ↔
      k.liveProcess pid = true ∧ p = (k.blocks pid).process ∧ k = k' := by
  rw [derefProcess, StateError.get_bind_apply, StateError.orThrow_eq_ok,
    Kernel.processGet_eq_some, and_assoc]

theorem modifyThread_eq_ok {uid : ThreadUid} {f : Thread → Thread} {u : Unit} {k k' : Kernel} :
    modifyThread uid f k = .ok u k' ↔ k' = k.setThread uid (f (k.thread uid)) :=
  StateError.modify_eq_ok

/-- Set the return value of the running system call (`frame->EAX`). -/
def syscallReturnSet (val : Word) : KernelM Unit :=
  modify fun k => { k with frame := { k.frame with eax := val } }

/-! ## Error codes (`horizon/errno.h`) -/

def eNONE : Word := 0
def ePARAM : Word := -1
def ePRIV : Word := -2
def eADDR : Word := -3
def eSIZE : Word := -4
def eALIGN : Word := -5
def eNOTAVAIL : Word := -6
def eINVALID : Word := -7
def eNORES : Word := -8

end Horizon
