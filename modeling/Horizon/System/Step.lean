import Horizon.System.Process
import Horizon.System.Memory

/-!
# Horizon — the kernel as a transition system

The kernel only runs in interrupt handlers, one after the other. An `Event` is an interrupt
with the register frame it pushes, or a store by the running user program; the registers
and the stored bytes are arbitrary, which stands for arbitrary user programs.

`Kernel.step` is one event. It has no result when the machine stops (a failed assertion, an
endless loop) or leaves the model (the kernel's own memory is overwritten). A page fault
inside the kernel is not the end: the processor enters `exception_pagefault`, which kills the
running thread, switches to another one and never returns to the interrupted handler.
-/

namespace Horizon

open StateError

/-- The system calls, with the arguments they take from the registers. -/
inductive Syscall where
  | spawn
  | launch (pid : BitVec 16) (entry : Word)
  | dispatch (entry stack : Word)
  | release (tid : BitVec 8)
  | kill (pid : BitVec 16)
  | yield
  | wait (sender : IpcPort)
  | vmap (dest size : Word)
  | pmap (dest src size : Word)
  | unmap (addr size : Word)
  | grant (info dest : Word)
  | share (info : Word)
  | accept (sid dest size : Word)
  | send (src : Word)
  | recv (dest : Word)
  | peek
  | drop (info : Word)
  | svcown (svc : Word)
  | svcid (svc : Word)
  | sysio (action arg data : Word)

/-- `dispatch_call`'s view of the registers: the table index and up to three arguments. -/
def Syscall.decode (frame : IntFrame) : Option Syscall :=
  let a := frame.ebx
  let b := frame.ecx
  let c := frame.edx
  match frame.eax.toNat with
  | 0 => some .spawn
  | 1 => some (.launch (a.setWidth 16) b)
  | 2 => some (.dispatch a b)
  | 3 => some (.release (a.setWidth 8))
  | 4 => some (.kill (a.setWidth 16))
  | 5 => some .yield
  | 6 => some (.wait (IpcPort.ofRaw a))
  | 7 => some (.vmap a b)
  | 8 => some (.pmap a b c)
  | 9 => some (.unmap a b)
  | 10 => some (.grant a b)
  | 11 => some (.share a)
  | 12 => some (.accept a b c)
  | 13 => some (.send a)
  | 14 => some (.recv a)
  | 15 => some .peek
  | 16 => some (.drop a)
  | 17 => some (.svcown a)
  | 18 => some (.svcid a)
  | 19 => some (.sysio a b c)
  | _ => none

/-- `arch_sysio`; `input` is what the device returns for the two input operations. -/
def archSysio (action arg data input : Word) : Word :=
  match action.toNat with
  | 0 => if arg.toNat > 0xFFFF then ePARAM else input &&& 0xFF
  | 1 => if arg.toNat > 0xFFFF then ePARAM else input &&& 0xFFFF
  | 2 => if arg.toNat > 0xFFFF ∨ data.toNat > 0xFF then ePARAM else eNONE
  | 3 => if arg.toNat > 0xFFFF ∨ data.toNat > 0xFFFF then ePARAM else eNONE
  | _ => ePARAM

/-- The function behind each number; `input` is what a port yields to `sysio`. -/
def Syscall.run (input : Word) : Syscall → KernelM Unit
  | .spawn => syscallSpawn
  | .launch pid entry => syscallLaunch pid entry
  | .dispatch entry stack => syscallDispatch entry stack
  | .release tid => syscallRelease tid
  | .kill pid => syscallKill pid
  | .yield => syscallYield
  | .wait sender => syscallWait sender
  | .vmap dest size => syscallVmap dest size
  | .pmap dest src size => syscallPmap dest src size
  | .unmap addr size => syscallUnmap addr size
  | .grant info dest => syscallGrant info dest
  | .share info => syscallShare info
  | .accept sid dest size => syscallAccept sid dest size
  | .send src => syscallSend src
  | .recv dest => syscallRecv dest
  | .peek => syscallPeek
  | .drop info => syscallDrop info
  | .svcown svc => syscallSvcown svc
  | .svcid svc => syscallSvcid svc
  | .sysio action arg data => syscallReturnSet (archSysio action arg data input)

/-! ## Events -/

/-- What makes the kernel run, and the stores of programs in between. -/
inductive Event where
  /-- The system call interrupt. -/
  | syscall (frame : IntFrame) (input : Word)
  /-- A hardware interrupt; line 0 is the timer. -/
  | irq (frame : IntFrame) (line : BitVec 4)
  /-- A divide error, overflow, bound or protection fault of the running thread. -/
  | userfault (frame : IntFrame)
  /-- A page fault of the running thread. -/
  | pagefault (frame : IntFrame)
  /-- A call of `internal_ksend`, whatever its reason. -/
  | ksend (port : IpcPort) (code : Word) (args : MsgArgs)
  /-- A byte stored by the running user program. -/
  | store (addr : Word) (byte : BitVec 8)

/-- The system call an event is, if it is one. -/
def Event.call : Event → Option Syscall
  | .syscall frame _ => Syscall.decode frame
  | _ => none

/-- `int_callback_common` for an interrupt line. -/
def runIrq (line : Nat) : KernelM Unit := do
  let k ← get
  if k.irqEnabled line then
    match k.irqHandle line with
    | .none => return
    | .timerTick => timerTick
    | .irqCallback => irqCallback line

/-- The frame a user access translates to: both levels must allow the user to write. -/
def Vm.userWritable (vm : Vm) (dir : Frame) (virt : Word) : Bool :=
  let de := vm.pages dir (dirIndex virt)
  let te := vm.pages de.frame (tblIndex virt)
  de.present && de.user && de.writable && te.present && te.user && te.writable

/-- A store by the running program. One that is not allowed is a page fault. -/
def userStore (addr : Word) (byte : BitVec 8) : KernelM Unit := do
  let vm := (← get).vm
  if vm.userWritable vm.cr3 addr then
    -- `grant` and `accept` may have mapped a page into the kernel's half, over a control block.
    failIf (kernelVirtBase ≤ addr) .kernelWrite
    let phys ← orThrow .pageFault (vm.translate vm.cr3 addr)
    modify fun k => { k with vm := { k.vm with ram := Function.update k.vm.ram phys byte } }
  else throw .pageFault

def enter (frame : IntFrame) : KernelM Unit := modify fun k => { k with frame := frame }

def Event.handle : Event → KernelM Unit
  | .syscall frame input => do
      enter frame
      match Syscall.decode frame with
      | some call => call.run input
      -- A warning, if anything.
      | none => return
  | .irq frame line => do
      enter frame
      runIrq line.toNat
  | .userfault frame => do
      enter frame
      exceptionUserfault
  | .pagefault frame => do
      enter frame
      exceptionPagefault
  | .ksend port code args => internalKsend port code args
  | .store addr byte => userStore addr byte

/-- Follow page faults inside the kernel: each kills the thread that was running. -/
def recover : Nat → EStateM.Result Fault Kernel Unit → Option Kernel
  | _, .ok _ k => some k
  | fuel + 1, .error .pageFault k => recover fuel (exceptionPagefault k)
  | _, .error _ _ => none

/-- Each nested fault has taken a message slot or killed a thread. -/
def faultFuel : Nat := 2 ^ 20

/-- One event, run to the end of its handler. -/
def Kernel.step (k : Kernel) (event : Event) : Option Kernel :=
  recover faultFuel (event.handle k)

/-! ## Boot -/

/-- `elf_section_t`: a loadable section has a physical address. -/
structure ElfSection where
  virt : Word
  phys : Word
  size : Word
  reserve : Word
  flags : Word := 0
  deriving DecidableEq

/-- `elf_binary_t`. -/
structure ElfBinary where
  entry : Word
  sections : List ElfSection

/-- Map one section of a startup process. -/
def loadSection (pid : Pid) (sect : ElfSection) : KernelM Unit := do
  if sect.phys = 0 then return
  let phys := addrAlign sect.phys archPgsize
  let virt := addrAlign sect.virt archPgsize
  dassert (virt + sect.reserve ≤ kernelVirtBase)
  virtualMap pid virt phys sect.size
  -- Then map any remaining with new memory.
  if sect.reserve - sect.size ≠ 0 then
    virtualAlloc pid (virt + sect.size) (sect.reserve - sect.size)

/-- Load a startup process from a validated module and start its main thread. -/
def startModule (binary : ElfBinary) : KernelM Unit := do
  let pid ← processNew 0 binary.entry
  binary.sections.forM (loadSection pid)
  let uid ← threadNew pid 0
  schedulerAdd uid

/-- `BMSTACK_SIZE(PROCESS_MAX)`. -/
def blockMapSize : Word := 256

/-- Reserve space for the process control blocks and set up management structures. -/
def processInit : KernelM Unit := do
  virtualAlloc 0 ((← get).vm.blocksBase + 1024 * blockDataSize) blockMapSize
  modify fun k => { k with blockMap := (((({} : Bmstack).set 0).set 1).link 1024) }

/-- The kernel's variables before `process_init`, over the memory set up so far. -/
def Kernel.initial (vm : Vm) : Kernel where
  blocks := fun _ => {}
  blockMap := {}
  blockVersions := fun _ => 0
  activeThread := 0
  locked := false
  frame := {}
  serviceIds := fun _ => {}
  irqHandle := fun _ => .none
  irqEnabled := fun _ => false
  vm := vm
  history := []
  touched := []

/-- The part of `kmain` from `process_init` on, for the modules that are valid binaries. -/
def kmain (modules : List ElfBinary) : KernelM Unit := do
  processInit
  modules.forM startModule
  schedulerStart

/-- `k` is the state in which user mode is entered for the first time. -/
def Booted (k : Kernel) : Prop :=
  ∃ vm modules, kmain modules (Kernel.initial vm) = .ok () k

end Horizon
