import Horizon.Memory.AddressSpace
import Horizon.System.UserMemory

/-!
# Horizon — writes into the kernel's own memory

`virtual_is_mapped` looks at the pages of the kernel's half as at any others, so `recv` and `drop`
store a message at every mapped address that the caller names, be it in a control block.
`Kernel.step` has no result then. `Exposed.step` follows such a store if it lands in a thread
control block, where it changes the field at this offset.

`Event.Spares` is the condition on an event, in the state before it, that the kernel's memory is
left alone. Under it the two step functions agree (`Exposed.step_eq`), so that a run of the
exposed kernel whose events all meet it is a run of `Kernel.step` (`Exposed.run_iff`).
-/

namespace Horizon

open StateError

variable {k k₀ k' : Kernel} {ev : Event} {evs : List Event}

/-! ## Stores into a control block -/

/-- Store a word at an offset of a saved register frame. -/
def IntFrame.poke (f : IntFrame) (w : Word) : Nat → Option IntFrame
  | 0 => some { f with gs := w }
  | 4 => some { f with fs := w }
  | 8 => some { f with es := w }
  | 12 => some { f with ds := w }
  | 16 => some { f with edi := w }
  | 20 => some { f with esi := w }
  | 24 => some { f with ebp := w }
  | 28 => some { f with esp := w }
  | 32 => some { f with ebx := w }
  | 36 => some { f with edx := w }
  | 40 => some { f with ecx := w }
  | 44 => some { f with eax := w }
  | 48 => some { f with intNum := w }
  | 52 => some { f with errCode := w }
  | 56 => some { f with eip := w }
  | 60 => some { f with cs := w }
  | 64 => some { f with eflags := w }
  | 68 => some { f with userEsp := w }
  | 72 => some { f with ss := w }
  | _ => none

/-- The value of a `THREAD_STATE`. -/
def ThreadState.ofRaw (w : Word) : Option ThreadState :=
  match w.toNat with
  | 0 => some .new
  | 1 => some .active
  | 2 => some .sending
  | 3 => some .waiting
  | 4 => some .old
  | _ => none

def Thread.setOffer (t : Thread) (f : Shm → Shm) : Option Thread :=
  some { t with syscallInfo := { t.syscallInfo with shmOffer := f t.syscallInfo.shmOffer } }

/-- Store a word at an offset of a thread control block. There is no result for a value that the
record cannot hold, and for the word with the TID, the version and the owner. -/
def Thread.poke (t : Thread) (w : Word) : Nat → Option Thread
  | 4 => (ThreadState.ofRaw w).map fun state => { t with state }
  | 8 => some { t with task := { t.task with entry := w } }
  | 12 => some { t with task := { t.task with stack := w } }
  | 92 => some { t with msgInfo := { t.msgInfo with count := w.toNat } }
  | 96 => some { t with
      msgInfo := { t.msgInfo with head := w.setWidth 16, tail := (w >>> 16).setWidth 16 } }
  | 100 => some { t with schedInfo := { t.schedInfo with timeslice := w } }
  | 104 => some { t with
      schedInfo := { t.schedInfo with
        next := ThreadUid.ofRaw (w.setWidth 16)
        prev := ThreadUid.ofRaw ((w >>> 16).setWidth 16) } }
  | 108 => some { t with syscallInfo := { t.syscallInfo with waitFor := IpcPort.ofRaw w } }
  | 112 => t.setOffer fun shm => { shm with dest := IpcPort.ofRaw w }
  | 116 => t.setOffer fun shm => { shm with addr := w }
  | 120 => t.setOffer fun shm => { shm with size := w }
  | 124 => t.setOffer fun shm => { shm with prot := w.setWidth 8 }
  | 128 => some { t with syscallInfo := { t.syscallInfo with payloadAddr := w } }
  | 132 => some { t with syscallInfo := { t.syscallInfo with payloadSize := w } }
  | off + 16 => (t.task.frame.poke w off).map fun frame => { t with task := { t.task with frame } }
  | _ => none

/-- The thread control block that an address lies in, and the offset in it. -/
def Kernel.threadAt (k : Kernel) (addr : Word) : Option (ThreadUid × Nat) :=
  let pid := (addr - k.vm.blocksBase).toNat / blockDataSize.toNat
  let offset := (addr - k.vm.blocksBase).toNat % blockDataSize.toNat
  let tid := (offset - threadOffset 0) / threadSize
  if pid < 1024 ∧ threadOffset 0 ≤ offset ∧ tid < processThreadMax then
    some ({ pid := BitVec.ofNat 10 pid, tid := BitVec.ofNat 6 tid },
      (offset - threadOffset 0) % threadSize)
  else none

namespace Exposed

/-- A store in the kernel's half; only those into thread control blocks are followed. -/
def kernelWordSet (addr val : Word) : KernelM Unit := do
  let k ← get
  failIf (!k.vm.pagingIsMapped k.vm.cr3 addr) .pageFault
  let (uid, offset) ← orThrow .kernelWrite (k.threadAt addr)
  let t ← orThrow .kernelWrite ((k.thread uid).poke val offset)
  modifyThread uid fun _ => t

/-- A store through a pointer that a program has passed. -/
def wordSet (addr val : Word) : KernelM Unit :=
  if addr < kernelVirtBase then userWordSet addr val else kernelWordSet addr val

/-! ## The calls that store a message -/

def storeMsg (dest : Word) (source : Envelope) : KernelM Unit := do
  wordSet dest source.sender.raw
  wordSet (dest + 4) source.code
  wordSet (dest + 8) (source.arg 0)
  wordSet (dest + 12) (source.arg 1)
  wordSet (dest + 16) (source.arg 2)

def messageRemove (uid : ThreadUid) (dest : Word) : KernelM Envelope := do
  let _ ← dassertSome ((← get).processGet uid.pid)
  let source ← onBlock uid.pid (Block.freeHead uid.tid)
  runIf (dest ≠ 0) (storeMsg dest source.toEnvelope)
  onBlock uid.pid (Block.unlinkHead uid.tid source)
  return source.toEnvelope

def recvFinish (caller : ThreadUid) (dest recvSize : Word) : KernelM Unit := do
  let envelope ← messageRemove caller dest
  record (.removed caller envelope)
  syscallReturnSet recvSize

/-- Neither a payload in the kernel's half nor its description there is followed. -/
def syscallRecv (dest : Word) : KernelM Unit := do
  let caller := (← get).schedulerCurr
  if (← virtualIsMapped caller.pid dest msgSize) ≠ 1 then return ← syscallReturnSet ePARAM
  if (← derefThread caller).msgInfo.count = 0 then return ← syscallReturnSet eNOTAVAIL
  let (port, hasPayload) ← messagePeek caller
  let sender := (← get).portToUid port 0
  if hasPayload ∧ sender ≠ 0 then
    failIf (kernelVirtBase ≤ dest) .kernelWrite
    match ← recvPayload caller sender dest with
    | .error code => syscallReturnSet code
    | .ok recvSize => recvFinish caller dest recvSize
  else
    recvFinish caller dest 0

/-- `info->from`, read back after the message has been stored there. -/
def storedPort (info : Word) (envelope : Envelope) : KernelM Word :=
  if info < kernelVirtBase then userWord info else pure envelope.sender.raw

/-- As the source has it, with a store wherever `info` points. -/
def syscallDrop (info : Word) : KernelM Unit := do
  let caller := (← get).schedulerCurr
  let mapped ← virtualIsMapped caller.pid info msgSize
  if info ≠ 0 ∧ mapped ≠ 1 then return ← syscallReturnSet ePARAM
  if (← derefThread caller).msgInfo.count = 0 then return ← syscallReturnSet eNOTAVAIL
  let envelope ← messageRemove caller info
  record (.removed caller envelope)
  let sender := (← get).portToUid (IpcPort.ofRaw (← storedPort info envelope)) caller.pid
  runIf (envelope.payload ∧ sender ≠ 0) (schedulerAdd sender)
  syscallReturnSet eNONE

/-! ## Events -/

def run (input : Word) : Syscall → KernelM Unit
  | .recv dest => syscallRecv dest
  | .drop info => syscallDrop info
  | call => call.run input

def handle : Event → KernelM Unit
  | .syscall frame input => do
      enter frame
      match Syscall.decode frame with
      | some call => run input call
      | none => return
  | ev => ev.handle

/-- One event of the kernel whose thread control blocks are exposed. -/
def step (k : Kernel) (ev : Event) : Option Kernel := recover faultFuel (handle ev k)

end Exposed

/-! ## Events that leave the kernel's memory alone -/

/-- A range below the kernel's half, in frames that hold neither a page directory or table nor a
page of the kernel's. -/
def Kernel.Owned (k : Kernel) (addr : Word) (size : Nat) : Prop :=
  addr.toNat + size ≤ kernelVirtBase.toNat ∧
    ∀ i < size, ∀ f, k.vm.pagingMappingGet k.vm.cr3 (addr + BitVec.ofNat 32 i) = some f →
      f ∉ (k.vm.pool k.dirs).pinned

/-- Does a thread of the process find a free slot? With a full bitmap `bitmap_find_and_set` goes on
in `versions`, and `thread_new` writes over the pointers behind them. -/
def Kernel.HasRoom (k : Kernel) (pid : Pid) : Prop := ∃ tid, (k.blocks pid).live tid = false

/-- The system call does not make the kernel write over memory of its own: what `recv` and `drop`
store stays in the caller's memory, `grant` and `accept` map nothing into the kernel's half and
take nothing out of it, and a new thread finds a slot. -/
def Syscall.Spares (k : Kernel) : Syscall → Prop
  | .recv dest => k.Owned dest msgSize.toNat ∧
      ∀ port k', messagePeek k.schedulerCurr k = .ok (port, true) k' →
        k.Owned (k.vm.wordAt (dest + 20)) (k.vm.wordAt (dest + 24)).toNat
  | .drop info => info ≠ 0 → k.Owned info msgSize.toNat
  | .grant info dest => ∀ shm k', fetchShm info k = .ok shm k' →
      shm.addr.toNat + shm.size.toNat ≤ kernelVirtBase.toNat ∧
        dest.toNat + shm.size.toNat ≤ kernelVirtBase.toNat
  | .accept sid dest _ =>
      let shm := (k.thread (ThreadUid.ofRaw (sid.setWidth 16))).syscallInfo.shmOffer
      dest.toNat + shm.size.toNat ≤ kernelVirtBase.toNat
  | .dispatch _ _ => k.HasRoom k.schedulerCurr.pid
  | .launch pid _ => k.HasRoom (pid.setWidth 10)
  | _ => True

/-- The event does not write over the kernel's memory. -/
def Event.Spares (k : Kernel) : Event → Prop
  | .syscall frame _ => ∀ call, Syscall.decode frame = some call → call.Spares k
  | .store addr _ => k.Owned addr 1
  | _ => True

namespace Exposed

theorem wordSet_eq {addr val : Word} (h : addr.toNat < kernelVirtBase.toNat) :
    wordSet addr val = userWordSet addr val := if_pos h

theorem storeMsg_eq {dest : Word} {source : Envelope}
    (h : dest.toNat + msgSize.toNat ≤ kernelVirtBase.toNat) :
    storeMsg dest source = Horizon.storeMsg dest source := by
  have hword : ∀ offset < msgSize, (dest + offset).toNat < kernelVirtBase.toNat := by
    intro offset hoffset
    have hbase : kernelVirtBase.toNat < 2 ^ 32 := kernelVirtBase.isLt
    have hlt : offset.toNat < msgSize.toNat := hoffset
    rw [BitVec.toNat_add, Nat.mod_eq_of_lt (by omega)]
    omega
  unfold storeMsg Horizon.storeMsg
  rw [wordSet_eq (BitVec.add_zero dest ▸ hword 0 (by decide)), wordSet_eq (hword 4 (by decide)),
    wordSet_eq (hword 8 (by decide)), wordSet_eq (hword 12 (by decide)),
    wordSet_eq (hword 16 (by decide))]
  rfl

/-- A message that goes to the caller's memory is removed as in the core model. -/
theorem messageRemove_eq {uid : ThreadUid} {dest : Word}
    (h : dest ≠ 0 → dest.toNat + msgSize.toNat ≤ kernelVirtBase.toNat) :
    messageRemove uid dest = Horizon.messageRemove uid dest := by
  unfold messageRemove Horizon.messageRemove
  by_cases hdest : dest = 0
  · simp only [hdest, ne_eq, not_true_eq_false, runIf, if_false]
  · simp only [storeMsg_eq (h hdest)]

theorem lt_of_spared {dest : Word}
    (h : dest ≠ 0 → dest.toNat + msgSize.toNat ≤ kernelVirtBase.toNat) : dest < kernelVirtBase := by
  by_cases hdest : dest = 0
  · rw [hdest]
    decide
  · have hsize : msgSize.toNat = 28 := rfl
    exact BitVec.lt_def.mpr (by have := h hdest; omega)

theorem run_eq {input : Word} {call : Syscall} (h : call.Spares k) :
    run input call = call.run input := by
  cases call with
  | recv dest =>
    show syscallRecv dest = Horizon.syscallRecv dest
    unfold syscallRecv recvFinish
    have hdest := lt_of_spared fun _ => h.1.1
    have hbelow : failIf (kernelVirtBase ≤ dest) .kernelWrite = (pure () : KernelM PUnit) :=
      if_neg (BitVec.not_le.mpr hdest)
    simp only [messageRemove_eq fun _ => h.1.1, hbelow, pure_bind]
    rfl
  | drop info =>
    show syscallDrop info = Horizon.syscallDrop info
    unfold syscallDrop Horizon.syscallDrop
    have hinfo := lt_of_spared fun hinfo => (h hinfo).1
    simp only [messageRemove_eq fun hinfo => (h hinfo).1, storedPort, if_pos hinfo]
  | _ => rfl

/-- Where the kernel's memory is spared, exposing it makes no difference. -/
theorem step_eq (h : ev.Spares k) : step k ev = k.step ev := by
  cases ev with
  | syscall frame input =>
    have hcall : handle (.syscall frame input) = Event.handle (.syscall frame input) := by
      simp only [handle, Event.handle]
      cases hdecode : Syscall.decode frame with
      | none => rfl
      | some call => simp only [run_eq (h call hdecode)]
    rw [step, hcall, Kernel.step]
  | _ => rfl

/-- The runs that spare the kernel's memory and whose steps meet `P`. -/
abbrev Run (P : Kernel → Event → Kernel → Prop) : Kernel → List Event → Kernel → Prop :=
  Steps step fun k ev k' => ev.Spares k ∧ P k ev k'

/-- They are the same in the core model. -/
theorem run_iff {P : Kernel → Event → Kernel → Prop} : Run P k₀ evs k ↔
    Steps Kernel.step (fun k ev k' => ev.Spares k ∧ P k ev k') k₀ evs k := by
  constructor
  · exact Steps.restep fun _ _ _ hstep hguard => ⟨step_eq hguard.1 ▸ hstep, hguard⟩
  · exact Steps.restep fun _ _ _ hstep hguard => ⟨(step_eq hguard.1).trans hstep, hguard⟩

theorem Run.steps {P : Kernel → Event → Kernel → Prop} (hrun : Run P k₀ evs k) :
    Steps Kernel.step P k₀ evs k :=
  (run_iff.mp hrun).mono fun _ _ _ _ hguard => hguard.2

end Exposed

/-! ## Events without a pointer to write to -/

/-- The events that spare the kernel's memory in every state. -/
def Event.harmless : Event → Bool
  | .syscall frame _ =>
      match Syscall.decode frame with
      | some (.recv _) | some (.drop _) | some (.grant ..) | some (.accept ..)
      | some (.dispatch ..) | some (.launch ..) => false
      | _ => true
  | .store .. => false
  | _ => true

theorem Event.spares_of_harmless (h : ev.harmless = true) : ev.Spares k := by
  cases ev with
  | syscall frame input =>
    intro call hcall
    simp only [Event.harmless, hcall] at h
    cases call with
    | recv | drop | grant | accept | dispatch | launch => cases h
    | _ => trivial
  | store => cases h
  | _ => trivial

/-- A run of harmless events spares the kernel's memory. -/
theorem Exposed.Run.of_harmless {P : Kernel → Event → Kernel → Prop}
    (hrun : Steps Kernel.step P k₀ evs k) (h : evs.all Event.harmless = true) :
    Exposed.Run P k₀ evs k := by
  refine Exposed.run_iff.mpr ?_
  induction hrun with
  | nil k => exact .nil k
  | cons hstep hguard _ ih =>
    rw [List.all_cons, Bool.and_eq_true] at h
    exact .cons hstep ⟨Event.spares_of_harmless h.1, hguard⟩ (ih h.2)

end Horizon
