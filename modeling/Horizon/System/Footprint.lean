import Horizon.Lib.Footprint
import Horizon.Ipc.Queue
import Horizon.System.Step

/-!
# Horizon — what each function of the kernel changes

`Does S x` says that the function `x` of the kernel makes only changes of the kinds in `S`. Each
function has one footprint. What a relation between states says about a function follows from it:
a relation lists the kinds of change it allows, and holds for every function that stays within
them (`Does.still` and its like, next to the relations).
-/

namespace Horizon

open StateError

/-- Kinds of change to the state of the kernel. -/
inductive Effect where
  /-- The log of accesses to user memory. -/
  | log
  /-- Bytes of memory. -/
  | ram
  /-- Page tables, the physical allocator, and memory with them. -/
  | paging
  /-- The page directory in use. -/
  | cr3
  /-- The return value in the interrupt frame. -/
  | result
  /-- The interrupt frame. -/
  | frame
  /-- Ring links and time slice of a thread. -/
  | sched
  /-- Saved registers of a thread. -/
  | task
  /-- The shared-memory offer of a thread. -/
  | offer
  /-- The state of a thread and what it waits for. -/
  | state
  | active
  | lock
  /-- The order of the messages in a queue. -/
  | links
  | queue
  | history
  | irq
  /-- The entry point of a process. -/
  | entry
  /-- A thread slot is freed. -/
  | exit
  /-- A process slot is freed. -/
  | free
  | service
  /-- A control block is set up. -/
  | create
  /-- A page fault inside the kernel. -/
  | fault
  deriving DecidableEq

/-- The state after a thread slot has been freed. -/
def Kernel.freeThread (k : Kernel) (uid : ThreadUid) : Kernel :=
  k.setBlock uid.pid { k.blocks uid.pid with
    process := { (k.blocks uid.pid).process with
      threadInfo := { (k.blocks uid.pid).process.threadInfo with
        bitmap := bitmapClear (k.blocks uid.pid).process.threadInfo.bitmap uid.tid.toNat
        count := (k.blocks uid.pid).process.threadInfo.count - 1 } } }

/-- The state after a process slot has been freed. -/
def Kernel.freeProcess (k : Kernel) (pid : Pid) : Kernel :=
  { k with blockMap := k.blockMap.clear pid.toNat }

/-- Only the order of the messages has changed. -/
structure Block.Relinked (b b' : Block) : Prop extends SameExceptQueues b b' where
  same : b'.process = b.process
  count : ∀ tid, (b'.info tid).count = (b.info tid).count

inductive Change : Effect → Kernel → Kernel → Prop
  | log (k : Kernel) (log : List Access) : Change .log k { k with touched := log }
  | ram (k : Kernel) (ram : Word → BitVec 8) : Change .ram k { k with vm := { k.vm with ram } }
  | paging (k : Kernel) (vm : Vm) (h : vm.cr3 = k.vm.cr3) : Change .paging k { k with vm }
  | cr3 (k : Kernel) (dir : Frame) : Change .cr3 k { k with vm := { k.vm with cr3 := dir } }
  | result (k : Kernel) (val : Word) :
      Change .result k { k with frame := { k.frame with eax := val } }
  | frame (k : Kernel) (frame : IntFrame) : Change .frame k { k with frame }
  | sched (k : Kernel) (uid : ThreadUid) (info : SchedInfo) :
      Change .sched k (k.setThread uid { k.thread uid with schedInfo := info })
  | task (k : Kernel) (uid : ThreadUid) (task : TaskInfo) :
      Change .task k (k.setThread uid { k.thread uid with task })
  | offer (k : Kernel) (uid : ThreadUid) (shm : Shm) :
      Change .offer k (k.setThread uid { k.thread uid with
        syscallInfo := { (k.thread uid).syscallInfo with shmOffer := shm } })
  | state (k : Kernel) (uid : ThreadUid) (state : ThreadState) (sched : SchedInfo)
      (call : SyscallInfo) :
      Change .state k (k.setThread uid { k.thread uid with
        state, schedInfo := sched, syscallInfo := call })
  | active (k : Kernel) (uid : ThreadUid) : Change .active k { k with activeThread := uid }
  | lock (k : Kernel) (locked : Bool) : Change .lock k { k with locked }
  | links (k : Kernel) (pid : Pid) (b : Block) (h : (k.blocks pid).Relinked b) :
      Change .links k (k.setBlock pid b)
  | queue (k : Kernel) (pid : Pid) (b : Block) (h : (k.blocks pid).SameExceptQueues b) :
      Change .queue k (k.setBlock pid b)
  | history (k : Kernel) (history : List IpcEvent) : Change .history k { k with history }
  | irq (k : Kernel) (handle : Nat → IrqHandle) (enabled : Nat → Bool) :
      Change .irq k { k with irqHandle := handle, irqEnabled := enabled }
  | entry (k : Kernel) (pid : Pid) (entry : Word) :
      Change .entry k (k.setBlock pid { k.blocks pid with
        process := { (k.blocks pid).process with entry } })
  | exit (k : Kernel) (uid : ThreadUid) : Change .exit k (k.freeThread uid)
  | free (k : Kernel) (pid : Pid) : Change .free k (k.freeProcess pid)
  | service (k : Kernel) (ids : Nat → IpcPort) : Change .service k { k with serviceIds := ids }
  | create (k k' : Kernel) : Change .create k k'

/-- The kinds of change to the state of the kernel, with the page fault apart. -/
def Kernel.kinds : Kinds Fault Kernel Effect where
  change := Change
  bad := .pageFault
  fault := .fault

/-- A program on the memory alone does not switch page directories. -/
def Vm.kinds : Kinds Fault Vm Effect where
  change e vm vm' := e = .paging ∧ vm'.cr3 = vm.cr3
  bad := .pageFault
  fault := .fault

def Block.kinds : Kinds Fault Block Effect where
  change e b b' := e = .links ∧ b.Relinked b' ∨ e = .queue ∧ b.SameExceptQueues b'
  bad := .pageFault
  fault := .fault

/-- `x` makes only changes of the kinds in `S`. -/
abbrev Does {α : Type} (S : List Effect) (x : KernelM α) : Prop := Footprint Kernel.kinds S x

/-- The kinds of change that do not stop the kernel. -/
abbrev Effect.faultless : List Effect :=
  [.log, .ram, .paging, .cr3, .result, .frame, .sched, .task, .offer, .state, .active, .lock, .links,
    .queue, .history, .irq, .entry, .exit, .free, .service, .create]

namespace Does

variable {α β : Type} {S T : List Effect} {x : KernelM α}

theorem change {e : Effect} {g : Kernel → Kernel} (h : ∀ k, Change e k (g k)) :
    Does [e] (modify g : KernelM PUnit) := Footprint.modify h

theorem noFault [hS : Within S Effect.faultless] (h : Does S x) : Never .pageFault x :=
  h.never fun hf => absurd (hS.mem _ hf) (by decide)

/-- Reading user memory, or the first access to a fresh page, may fault. -/
theorem orFault (o : Option α) : Does [.fault] (orThrow .pageFault o : KernelM α) :=
  Footprint.orThrowBad o

theorem throwFault : Does [.fault] (throw .pageFault : KernelM α) := Footprint.throwBad

theorem failIfFault (c : Prop) [Decidable c] :
    Does [.fault] (failIf c .pageFault : KernelM Unit) := Footprint.failIfBad c

end Does

theorem liftVm_does {α : Type} {x : VmM α} (h : Footprint Vm.kinds [.paging] x) :
    Does [.paging] (liftVm x) :=
  h.zoom rfl rfl (fun _ k vm ⟨he, hcr3⟩ => he ▸ .paging k vm hcr3) (fun _ _ => rfl) (fun _ => rfl)
    fun _ _ _ => rfl

theorem onBlock_does {α : Type} {S : List Effect} {x : BlockM α} (h : Footprint Block.kinds S x)
    (pid : Pid) : Does S (onBlock pid x) := by
  refine h.zoom rfl rfl (fun _ k b hb => ?_) (fun k b => Function.update_self ..) (fun k => ?_)
    fun k b b' => ?_
  · rcases hb with ⟨rfl, hb⟩ | ⟨rfl, hb⟩
    · exact Change.links k pid b hb
    · exact Change.queue k pid b hb
  · rw [Kernel.setBlock, Function.update_eq_self]
  · simp only [Kernel.setBlock, Function.update_idem]

/-! ## Memory -/

theorem physicalAlloc_does : Footprint Vm.kinds [.paging] physicalAlloc :=
  .sub <| .bind .get fun _ => .bind (.orThrow (by decide) _) fun _ =>
    .bind (.failIf (by decide) _) fun _ =>
    .bind (.modify fun _ => ⟨rfl, rfl⟩) fun _ => .pure _

theorem physicalRetain_does (block : Frame) : Footprint Vm.kinds [.paging] (physicalRetain block) :=
  .sub <| .bind .get fun _ => .ite (.pure _)
    (.bind (.failIf (by decide) _) fun _ => .modify fun _ => ⟨rfl, rfl⟩)

theorem physicalRelease_does (block : Frame) :
    Footprint Vm.kinds [.paging] (physicalRelease block) :=
  .sub <| .bind .get fun _ => .ite (.pure _)
    (.bind (.modify fun _ => ⟨rfl, rfl⟩) fun _ => .ite (.pure _)
      (.bind (.failIf (by decide) _) fun _ => .bind (.modify fun _ => ⟨rfl, rfl⟩) fun _ => .pure _))

theorem pagingDirCreate_does : Footprint Vm.kinds [.paging] pagingDirCreate :=
  .sub <| .bind physicalAlloc_does fun _ => .bind (.modify fun _ => ⟨rfl, rfl⟩) fun _ => .pure _

theorem destroyTable_does (tbl : Frame) (i : BitVec 10) (n : Nat) :
    Footprint Vm.kinds [.paging] (destroyTable tbl i n) := by
  induction n with
  | zero => exact .sub (.pure _)
  | succ n ih =>
    exact .sub <| .bind .get fun _ =>
      .bind (.runIf (.bind (physicalRelease_does _) fun _ => .pure _)) fun _ => ih

theorem destroyTables_does (dir : Frame) (n : Nat) (i : BitVec 10) :
    Footprint Vm.kinds [.paging] (destroyTables dir n i) := by
  induction n generalizing i with
  | zero => exact .sub (.pure _)
  | succ n ih =>
    exact .sub <| .bind .get fun _ => .bind (.runIf (.bind (destroyTable_does _ _ _) fun _ =>
      .bind (physicalRelease_does _) fun _ => .pure _)) fun _ => ih _

theorem pagingDirDestroy_does (dir : Frame) : Footprint Vm.kinds [.paging] (pagingDirDestroy dir) :=
  .sub <| .bind .get fun _ => .bind (.failIf (by decide) _) fun _ =>
    .bind (destroyTables_does _ _ _) fun _ =>
    .bind (physicalRelease_does _) fun _ => .pure _

theorem tableFor_does (dir : Frame) (virt : Word) (flags : PagingFlags) :
    Footprint Vm.kinds [.paging] (tableFor dir virt flags) :=
  .sub <| .bind .get fun _ => .ite (.bind (.modify fun _ => ⟨rfl, rfl⟩) fun _ => .pure _)
    (.bind physicalAlloc_does fun _ => .bind (.modify fun _ => ⟨rfl, rfl⟩) fun _ =>
      .bind (.modify fun _ => ⟨rfl, rfl⟩) fun _ => .pure _)

theorem pagingMap_does (dir : Frame) (virt : Word) (phys : Frame) (flags : PagingFlags) :
    Footprint Vm.kinds [.paging] (pagingMap dir virt phys flags) :=
  .sub <| .bind (tableFor_does _ _ _) fun _ => .bind .get fun _ =>
    .ite (.bind (.modify fun _ => ⟨rfl, rfl⟩) fun _ => .pure _) (.pure _)

theorem pagingUnmap_does (dir : Frame) (virt : Word) :
    Footprint Vm.kinds [.paging] (pagingUnmap dir virt) := by
  refine .sub (.bind (T := [.paging]) .get fun vm => ?_)
  cases vm.tblentGet dir virt with
  | none => exact .sub (.pure _)
  | some te =>
    exact .sub <| .ite (.pure _) (.bind (physicalRelease_does _) fun _ =>
      .modify fun _ => ⟨rfl, rfl⟩)

theorem pageLoop_does {body : Word → Word → VmM Unit} (finish : Word)
    (h : ∀ curr other, Footprint Vm.kinds [.paging] (body curr other)) (fuel : Nat)
    (curr other : Word) : Footprint Vm.kinds [.paging] (pageLoop body finish fuel curr other) := by
  induction fuel generalizing curr other with
  | zero => exact .sub (.throw (by decide))
  | succ fuel ih => exact .sub <| .ite (.bind (h _ _) fun _ => ih _ _) (.pure _)

theorem dassert_does (c : Prop) [Decidable c] : Does [] (dassert c) :=
  .ite (.pure _) (.throw (by decide))

theorem dassertSome_does {α : Type} (o : Option α) : Does [] (dassertSome o) := .orThrow (by decide) o

theorem derefThread_does (uid : ThreadUid) : Does [] (derefThread uid) :=
  .bind .get fun _ => .orThrow (by decide) _

theorem derefProcess_does (pid : Pid) : Does [] (derefProcess pid) :=
  .bind .get fun _ => .orThrow (by decide) _

theorem portFromUid_does (uid : ThreadUid) : Does [] (portFromUid uid) :=
  .bind .get fun _ => .bind (dassertSome_does _) fun _ => .bind (dassertSome_does _) fun _ => .pure _

theorem getDir_does (pid : Pid) : Does [] (getDir pid) :=
  .bind .get fun _ => .ite (.pure _) (.bind (dassertSome_does _) fun _ => .pure _)

theorem virtualMap_does (pid : Pid) (virt phys size : Word) :
    Does [.paging] (virtualMap pid virt phys size) :=
  .bind (dassert_does _) fun _ => .bind (getDir_does pid) fun _ =>
    liftVm_does (pageLoop_does _ (fun _ _ => .sub (.bind (pagingMap_does _ _ _ _) fun _ => .pure _))
      _ _ _)

theorem virtualUnmap_does (pid : Pid) (virt size : Word) :
    Does [.paging] (virtualUnmap pid virt size) :=
  .bind (dassert_does _) fun _ => .bind (getDir_does pid) fun _ =>
    liftVm_does (pageLoop_does _ (fun _ _ => pagingUnmap_does _ _) _ _ _)

theorem virtualAlloc_does (pid : Pid) (virt size : Word) :
    Does [.paging] (virtualAlloc pid virt size) := by
  refine .bind (dassert_does _) fun _ => .bind (getDir_does pid) fun _ =>
    liftVm_does (pageLoop_does _ (fun _ _ => ?_) _ _ _)
  exact .sub <| .bind .get fun _ => .bind (.runIf (.bind physicalAlloc_does fun _ =>
    .bind (pagingMap_does _ _ _ _) fun _ => .pure _)) fun _ => .modify fun _ => ⟨rfl, rfl⟩

theorem virtualIsMapped_does (pid : Pid) (virt size : Word) :
    Does [] (virtualIsMapped pid virt size) :=
  .bind (dassert_does _) fun _ => .bind (getDir_does pid) fun _ =>
    .bind .get fun _ => .orThrow (by decide) _

theorem virtualShare_does (dest src : Pid) (addrTo addrFrom size : Word) (mode : BitVec 8) :
    Does [.paging] (virtualShare dest src addrTo addrFrom size mode) := by
  refine .bind .get fun _ => .bind (dassertSome_does _) fun _ => .bind .get fun _ =>
    .bind (dassertSome_does _) fun _ => .bind (dassert_does _) fun _ =>
      liftVm_does (pageLoop_does _ (fun _ _ => ?_) _ _ _)
  exact .sub <| .bind .get fun _ => .ite (.pure _) (.ite (.pure _)
    (.bind (physicalRetain_does _) fun _ => .bind (pagingMap_does _ _ _ _) fun _ => .pure _))

/-! ## User memory and registers -/

theorem syscallReturnSet_does (val : Word) : Does [.result] (syscallReturnSet val) :=
  Does.change fun _ => .result ..

theorem enter_does (frame : IntFrame) : Does [.frame] (enter frame) := Does.change fun _ => .frame ..

theorem touch_does (kind : AccessKind) (addr : Word) : Does [.log] (touch kind addr) :=
  Does.change fun _ => .log ..

theorem userByte_does (addr : Word) : Does [.log, .fault] (userByte addr) :=
  .bind (touch_does _ _) fun _ => .bind .get fun _ => .bind (Does.orFault _) fun _ => .pure _

theorem userWord_does (addr : Word) : Does [.log, .fault] (userWord addr) :=
  .sub <| .bind (userByte_does _) fun _ => .bind (userByte_does _) fun _ =>
    .bind (userByte_does _) fun _ => .bind (userByte_does _) fun _ => .pure _

theorem userByteSet_does (addr : Word) (byte : BitVec 8) :
    Does [.log, .ram, .fault] (userByteSet addr byte) :=
  .sub <| .bind (touch_does _ _) fun _ => .bind (.failIf (by decide) _) fun _ => .bind .get fun _ =>
    .bind (Does.orFault _) fun _ => Does.change fun _ => .ram ..

theorem userWordSet_does (addr val : Word) : Does [.log, .ram, .fault] (userWordSet addr val) :=
  .sub <| .bind (userByteSet_does _ _) fun _ => .bind (userByteSet_does _ _) fun _ =>
    .bind (userByteSet_does _ _) fun _ => userByteSet_does _ _

theorem storeMsg_does (dest : Word) (e : Envelope) : Does [.log, .ram, .fault] (storeMsg dest e) :=
  .sub <| .bind (userWordSet_does _ _) fun _ => .bind (userWordSet_does _ _) fun _ =>
    .bind (userWordSet_does _ _) fun _ => .bind (userWordSet_does _ _) fun _ =>
      userWordSet_does _ _

theorem fetchMsg_does (src : Word) (dest : IpcPort) (buf : Word) :
    Does [.log, .fault] (fetchMsg src dest buf) :=
  .sub <| .bind (dassert_does _) fun _ => .bind (userWord_does _) fun _ =>
    .bind (userWord_does _) fun _ => .bind (userWord_does _) fun _ =>
      .bind (userWord_does _) fun _ => .bind (userWord_does _) fun _ => .pure _

theorem fetchShm_does (info : Word) : Does [.log, .fault] (fetchShm info) :=
  .sub <| .bind (userWord_does _) fun _ => .bind (userWord_does _) fun _ =>
    .bind (userWord_does _) fun _ => .bind (userByte_does _) fun _ => .pure _

theorem copyBytes_does (phys : Word) (n : Nat) (addrFrom addrTo : Word) :
    Does [.log, .ram, .fault] (copyBytes phys n addrFrom addrTo) := by
  induction n generalizing phys addrFrom addrTo with
  | zero => exact .sub (.pure _)
  | succ n ih =>
    exact .sub <| .bind (touch_does _ _) fun _ => .bind .get fun _ =>
      .bind (userByteSet_does _ _) fun _ => ih _ _ _

theorem copyPayload_does (owner : Pid) (finish : Word) (fuel : Nat) (addrFrom addrTo : Word) :
    Does [.log, .ram, .fault] (copyPayload owner finish fuel addrFrom addrTo) := by
  induction fuel generalizing addrFrom addrTo with
  | zero => exact .sub (.throw (by decide))
  | succ fuel ih =>
    exact .sub <| .ite (.bind (derefProcess_does _) fun _ => .bind .get fun _ =>
      .bind (copyBytes_does _ _ _ _) fun _ => ih _ _) (.pure _)

theorem userStore_does (addr : Word) (byte : BitVec 8) :
    Does [.ram, .fault] (userStore addr byte) :=
  .sub <| .bind .get fun _ => .ite
    (.bind (.failIf (by decide) _) fun _ => .bind (Does.orFault _) fun _ =>
      Does.change fun _ => .ram ..)
    Does.throwFault

/-! ## The scheduler -/

theorem modifySched_does (uid : ThreadUid) (f : SchedInfo → SchedInfo) :
    Does [.sched] (modifySched uid f) := Does.change fun _ => .sched ..

theorem setActive_does (uid : ThreadUid) : Does [.active] (setActive uid) :=
  Does.change fun _ => .active ..

theorem pagingPasLoad_does (dir : Frame) : Does [.cr3] (pagingPasLoad dir) :=
  Does.change fun _ => .cr3 ..

theorem taskPreserve_does (uid : ThreadUid) : Does [.task] (taskPreserve uid) :=
  .bind .get fun _ => Does.change fun _ => .task ..

theorem taskSwitch_does (curr : Option ThreadUid) (next : ThreadUid) :
    Does [.task, .frame] (taskSwitch curr next) := by
  have hrest : Does [.frame] (do
      let task := ((← get).thread next).task
      if task.frame.eip = 0 then
        modify fun k => { k with frame := { k.frame with eip := task.entry, userEsp := task.stack } }
      else modify fun k => { k with frame := task.frame } : KernelM Unit) :=
    .sub <| .bind .get fun _ => .ite (Does.change fun _ => .frame ..) (Does.change fun _ => .frame ..)
  cases curr with
  | none => exact hrest.sub
  | some uid => exact .bind (taskPreserve_does uid) fun _ => hrest

theorem ringInsert_does (uid : ThreadUid) : Does [.sched, .active] (ringInsert uid) :=
  .sub <| .bind .get fun _ => .ite (.bind (modifySched_does _ _) fun _ => setActive_does uid)
    (.bind (derefThread_does _) fun _ => .bind (derefThread_does _) fun _ =>
      .bind (modifySched_does _ _) fun _ => .bind (modifySched_does _ _) fun _ =>
        modifySched_does _ _)

theorem ringRemove_does (uid : ThreadUid) (sched : SchedInfo) :
    Does [.sched, .active] (ringRemove uid sched) :=
  .sub <| .ite (setActive_does 0) (.bind .get fun _ => .bind (.runIf (setActive_does _)) fun _ =>
    .bind (derefThread_does _) fun _ => .bind (derefThread_does _) fun _ =>
      .bind (modifySched_does _ _) fun _ => modifySched_does _ _)

theorem schedulerAdd_does (uid : ThreadUid) : Does [.state, .sched, .active] (schedulerAdd uid) :=
  .bind .get fun _ => .bind (dassertSome_does _) fun _ => .bind (dassert_does _) fun _ =>
    .bind (Does.change fun _ => .state ..) fun _ => ringInsert_does uid

theorem schedulerRemove_does (uid : ThreadUid) :
    Does [.state, .sched, .active] (schedulerRemove uid) :=
  .sub <| .bind .get fun _ => .bind (dassertSome_does _) fun _ => .bind (dassert_does _) fun _ =>
    .bind .get fun _ => .bind (dassert_does _) fun _ =>
      .bind (ringRemove_does _ _) fun _ => Does.change fun _ => .state ..

theorem purgeThreads_does (pid : Pid) (l : List Tid) :
    Does [.state, .sched, .active] (purgeThreads pid l) := by
  induction l with
  | nil => exact .sub (.pure _)
  | cons tid rest ih =>
    exact .sub <| .bind .get fun _ => .bind (.runIf (.bind (derefThread_does _) fun _ =>
      .runIf (schedulerRemove_does _))) fun _ => ih

theorem schedulerPurge_does (pid : Pid) : Does [.state, .sched, .active] (schedulerPurge pid) :=
  .bind .get fun _ => .bind (dassertSome_does _) fun _ => purgeThreads_does pid allTids

theorem schedulerNext_does : Does [.sched, .active, .cr3, .task, .frame] schedulerNext :=
  .sub <| .bind .get fun _ => .bind (derefThread_does _) fun _ =>
    .bind (modifySched_does _ _) fun _ => .ite (.pure _) (.bind (setActive_does _) fun _ =>
      .bind .get fun _ => .bind (dassertSome_does _) fun _ =>
        .bind (.runIf (.bind (derefProcess_does _) fun _ => pagingPasLoad_does _)) fun _ =>
          taskSwitch_does _ _)

theorem schedulerLock_does : Does [.lock, .task] schedulerLock :=
  .bind (Does.change fun _ => .lock ..) fun _ => .bind .get fun _ => .bind (derefThread_does _) fun _ =>
    taskPreserve_does _

theorem schedulerUnlock_does : Does [.lock, .cr3, .task, .frame] schedulerUnlock :=
  .bind .get fun _ => .bind (dassert_does _) fun _ => .bind (Does.change fun _ => .lock ..) fun _ =>
    .bind (derefThread_does _) fun _ => .bind (derefProcess_does _) fun _ =>
      .bind (pagingPasLoad_does _) fun _ => taskSwitch_does _ _

theorem unlockIfLocked_does : Does [.lock, .cr3, .task, .frame] unlockIfLocked :=
  .sub <| .bind .get fun _ => .ite schedulerUnlock_does (.pure _)

theorem unlockOrReturn_does : Does [.lock, .cr3, .task, .frame, .result] unlockOrReturn :=
  .bind .get fun _ => .ite schedulerUnlock_does (syscallReturnSet_does _)

theorem timerTick_does : Does [.sched, .active, .cr3, .task, .frame] timerTick :=
  .sub <| .bind .get fun _ => .bind .get fun _ => .bind (dassertSome_does _) fun _ =>
    .bind (modifySched_does _ _) fun _ => .ite schedulerNext_does (.pure _)

/-! ## Messages -/

namespace Block

theorem modifyMessage_does {i : Nat} {m : Block → Message} :
    Footprint kinds [.queue] (modify fun b => b.setMessage i (m b) : BlockM Unit) :=
  .modify fun b => Or.inr ⟨rfl, (SameExceptQueues.refl b).setMessage i (m b)⟩

theorem modifyMsgInfo_does {tid : Tid} {q : Block → ThreadMsgInfo} :
    Footprint kinds [.queue] (modify fun b => b.setMsgInfo tid (q b) : BlockM Unit) :=
  .modify fun b => Or.inr ⟨rfl, (SameExceptQueues.refl b).setMsgInfo tid (q b)⟩

theorem modifyProcessMsgInfo_does {p : Block → ProcessMsgInfo} :
    Footprint kinds [.queue] (modify fun b => b.setProcessMsgInfo (p b) : BlockM Unit) :=
  .modify fun b => Or.inr ⟨rfl, (SameExceptQueues.refl b).setProcessMsgInfo (p b)⟩

theorem setNext_does {i : Nat} {link : Block → Link} :
    Footprint kinds [.links] (modify fun b => b.setNext i (link b) : BlockM Unit) :=
  .modify fun b => Or.inl ⟨rfl, (SameExceptQueues.refl b).setMessage i _, rfl, fun _ => rfl⟩

theorem setMsgInfo_does {tid : Tid} {info : Block → ThreadMsgInfo}
    (h : ∀ b, (info b).count = (b.info tid).count) :
    Footprint kinds [.links] (modify fun b => b.setMsgInfo tid (info b) : BlockM Unit) := by
  refine .modify fun b => Or.inl ⟨rfl, (SameExceptQueues.refl b).setMsgInfo tid _, rfl, fun j => ?_⟩
  rw [info_setMsgInfo, Function.update_apply]
  split
  · next hj => rw [h, hj]
  · rfl

theorem assertLive_does (tid : Tid) : Footprint kinds [] (assertLive tid) :=
  .bind .get fun _ => .ite (.pure _) (.throw (by decide))

theorem slotIndex_does (link : Link) : Footprint kinds [] (slotIndex link) :=
  .ite (.pure _) (.throw (by decide))

theorem takeSlot_does : Footprint kinds [.queue] takeSlot :=
  .bind .get fun _ => .bind (.failIf (by decide) _) fun _ => .bind (.orThrow (by decide) _) fun _ =>
    .bind (.failIf (by decide) _) fun _ => .bind modifyProcessMsgInfo_does fun _ => .pure _

theorem fillSlot_does (index : Nat) (tid : Tid) (sender : IpcPort) (info : Msg) (head : Bool) :
    Footprint kinds [.queue] (fillSlot index tid sender info head) :=
  .sub <| .bind modifyMessage_does fun _ => .bind (assertLive_does tid) fun _ => .bind .get fun _ =>
    .ite (.bind modifyMessage_does fun _ => .bind modifyMsgInfo_does fun _ =>
      .bind modifyProcessMsgInfo_does fun _ => modifyMsgInfo_does)
    (.ite (.bind modifyMsgInfo_does fun _ => .bind modifyMessage_does fun _ =>
      .bind modifyMsgInfo_does fun _ => .bind modifyProcessMsgInfo_does fun _ => modifyMsgInfo_does)
    (.bind (slotIndex_does _) fun _ => .bind modifyMessage_does fun _ =>
      .bind modifyMessage_does fun _ => .bind modifyMsgInfo_does fun _ =>
        .bind modifyProcessMsgInfo_does fun _ => modifyMsgInfo_does))

theorem freeHead_does (tid : Tid) : Footprint kinds [.queue] (freeHead tid) :=
  .bind (assertLive_does tid) fun _ => .bind .get fun _ => .bind (.failIf (by decide) _) fun _ =>
    .bind (slotIndex_does _) fun _ => .bind .get fun _ =>
      .bind modifyProcessMsgInfo_does fun _ => .pure _

theorem unlinkHead_does (tid : Tid) (source : Message) :
    Footprint kinds [.queue] (unlinkHead tid source) :=
  .sub <| .bind modifyMsgInfo_does fun _ => modifyProcessMsgInfo_does

theorem messagePeek_does (tid : Tid) : Footprint kinds [] (messagePeek tid) :=
  .bind (assertLive_does tid) fun _ => .bind .get fun _ => .bind (.failIf (by decide) _) fun _ =>
    .bind (slotIndex_does _) fun _ => .pure _

theorem findFrom_does (search : IpcPort) (fuel : Nat) (prev curr : Link) :
    Footprint kinds [] (findFrom search fuel prev curr) := by
  induction fuel generalizing prev curr with
  | zero => exact .throw (by decide)
  | succ fuel ih =>
    exact .ite (.pure _) (.bind (slotIndex_does _) fun _ => .bind .get fun _ =>
      .ite (.pure _) (ih _ _))

theorem moveToHead_does (tid : Tid) (prev curr : Link) :
    Footprint kinds [.links] (moveToHead tid prev curr) :=
  .sub <| .bind setNext_does fun _ => .bind (setMsgInfo_does fun _ => rfl) fun _ =>
    .bind setNext_does fun _ => setMsgInfo_does fun _ => rfl

theorem messageFind_does (tid : Tid) (search : IpcPort) :
    Footprint kinds [.links] (messageFind tid search) := by
  refine .bind (assertLive_does tid) fun _ => .bind .get fun _ => .ite (.pure _)
    (.bind (findFrom_does _ _ _ _) fun found => ?_)
  cases found with
  | none => exact .sub (.pure _)
  | some place =>
    exact .ite (.pure _) (.bind (moveToHead_does _ _ _) fun _ => .pure _)

end Block

theorem messageAdd_does {info : KernelM Msg} (hinfo : Does [.log, .fault] info) (uid : ThreadUid)
    (sender : IpcPort) (head : Bool) :
    Does [.log, .queue, .fault] (messageAdd uid sender info head) :=
  .sub <| .bind .get fun _ => .bind (dassertSome_does _) fun _ =>
    .bind (onBlock_does Block.takeSlot_does _) fun _ => .bind .get fun _ =>
      .bind (Does.failIfFault _) fun _ => .bind hinfo fun _ =>
        .bind (onBlock_does (Block.fillSlot_does _ _ _ _ _) _) fun _ => .pure _

theorem messageRemove_does (uid : ThreadUid) (dest : Word) :
    Does [.log, .ram, .queue, .fault] (messageRemove uid dest) :=
  .sub <| .bind .get fun _ => .bind (dassertSome_does _) fun _ =>
    .bind (onBlock_does (Block.freeHead_does _) _) fun _ =>
      .bind (.runIf (storeMsg_does _ _)) fun _ =>
        .bind (onBlock_does (Block.unlinkHead_does _ _) _) fun _ => .pure _

theorem messagePeek_does (uid : ThreadUid) : Does [] (messagePeek uid) :=
  .bind .get fun _ => .bind (dassertSome_does _) fun _ => onBlock_does (Block.messagePeek_does _) _

theorem messageFind_does (uid : ThreadUid) (search : IpcPort) :
    Does [.links] (messageFind uid search) :=
  .bind .get fun _ => .bind (dassertSome_does _) fun _ =>
    onBlock_does (Block.messageFind_does _ _) _

theorem record_does (event : IpcEvent) : Does [.history] (record event) :=
  Does.change fun _ => .history ..

theorem deliver_does {info : KernelM Msg} (hinfo : Does [.log, .fault] info) (target : ThreadUid)
    (port : IpcPort) (event : Msg → IpcEvent) :
    Does [.log, .queue, .history, .state, .sched, .active, .fault]
      (deliver target port info event) :=
  .sub <| .bind .get fun _ => .bind (messageAdd_does hinfo _ _ _) fun _ =>
    .bind (record_does _) fun _ => .runIf (schedulerAdd_does _)

theorem internalKsend_does (port : IpcPort) (code : Word) (args : MsgArgs) :
    Does [.log, .queue, .history, .state, .sched, .active, .fault]
      (internalKsend port code args) :=
  .bind .get fun _ => .bind (dassert_does _) fun _ => .bind (derefProcess_does _) fun _ =>
    .bind (.failIf (by decide) _) fun _ => .bind (derefThread_does _) fun _ =>
      deliver_does (.sub (.pure _)) _ _ _

theorem blockCaller_does (caller : ThreadUid) (addr size : Word) :
    Does [.lock, .task, .state, .sched, .active] (blockCaller caller addr size) :=
  .sub <| .bind schedulerLock_does fun _ => .bind (schedulerRemove_does _) fun _ =>
    Does.change fun _ => .state ..

theorem sleepCaller_does (caller : ThreadUid) (port : IpcPort) :
    Does [.result, .lock, .task, .state, .sched, .active, .cr3, .frame]
      (sleepCaller caller port) :=
  .sub <| .bind (syscallReturnSet_does _) fun _ => .bind schedulerLock_does fun _ =>
    .bind (schedulerRemove_does _) fun _ => .bind (Does.change fun _ => .state ..) fun _ =>
      schedulerUnlock_does

theorem sendDeliver_does (caller target : ThreadUid) (port : IpcPort) (src : Word)
    (dest : IpcPort) (buf : Word) :
    Does [.log, .queue, .history, .state, .sched, .active, .lock, .cr3, .task, .frame, .fault]
      (sendDeliver caller target port src dest buf) :=
  .sub <| .bind (deliver_does (fetchMsg_does _ _ _) _ _ _) fun _ => unlockIfLocked_does

theorem sendPayload_does (caller target : ThreadUid) (port : IpcPort) (src : Word)
    (dest : IpcPort) :
    Does [.log, .queue, .history, .state, .sched, .active, .lock, .cr3, .task, .frame, .result,
      .fault] (sendPayload caller target port src dest) :=
  .sub <| .bind (syscallReturnSet_does _) fun _ => .bind (userWord_does _) fun _ =>
    .ite (.bind (userWord_does _) fun _ => .ite (syscallReturnSet_does _)
      (.bind (virtualIsMapped_does _ _ _) fun _ => .ite (syscallReturnSet_does _)
        (.bind (blockCaller_does _ _ _) fun _ => sendDeliver_does _ _ _ _ _ _)))
      (sendDeliver_does _ _ _ _ _ _)

theorem syscallSend_does (src : Word) :
    Does [.log, .queue, .history, .state, .sched, .active, .lock, .cr3, .task, .frame, .result,
      .fault] (syscallSend src) :=
  .sub <| .bind .get fun _ => .bind (portFromUid_does _) fun _ =>
    .bind (virtualIsMapped_does _ _ _) fun _ => .ite (syscallReturnSet_does _)
      (.bind (userWord_does _) fun _ => .ite (syscallReturnSet_does _)
        (.bind .get fun _ => .ite (syscallReturnSet_does _)
          (.bind .get fun _ => .ite (syscallReturnSet_does _)
            (.bind (derefProcess_does _) fun _ => .ite (syscallReturnSet_does _)
              (sendPayload_does _ _ _ _ _)))))

theorem recvPayload_does (caller sender : ThreadUid) (dest : Word) :
    Does [.log, .ram, .state, .sched, .active, .fault] (recvPayload caller sender dest) :=
  .sub <| .bind (derefThread_does _) fun _ => .bind .get fun _ => .bind (userWord_does _) fun _ =>
    .bind (userWord_does _) fun _ => .ite (.pure _) (.bind (virtualIsMapped_does _ _ _) fun _ =>
      .ite (.pure _) (.bind (copyPayload_does _ _ _ _ _) fun _ =>
        .bind (schedulerAdd_does _) fun _ => .pure _))

theorem recvFinish_does (caller : ThreadUid) (dest size : Word) :
    Does [.log, .ram, .queue, .history, .result, .fault] (recvFinish caller dest size) :=
  .sub <| .bind (messageRemove_does _ _) fun _ => .bind (record_does _) fun _ =>
    syscallReturnSet_does _

theorem syscallRecv_does (dest : Word) :
    Does [.log, .ram, .queue, .history, .state, .sched, .active, .result, .fault]
      (syscallRecv dest) := by
  refine .sub <| .bind .get fun _ => .bind (virtualIsMapped_does _ _ _) fun _ =>
    .ite (syscallReturnSet_does _) (.bind (derefThread_does _) fun _ =>
      .ite (syscallReturnSet_does _) (.bind (messagePeek_does _) fun _ => .bind .get fun _ =>
        .ite (.bind (T := [.log, .ram, .queue, .history, .result, .fault]) (recvPayload_does _ _ _)
          fun outcome => ?_) (recvFinish_does _ _ _)))
  cases outcome with
  | error code => exact (syscallReturnSet_does code).sub
  | ok size => exact recvFinish_does _ dest size

theorem syscallPeek_does : Does [.result] syscallPeek :=
  .sub <| .bind .get fun _ => .bind (derefThread_does _) fun _ => .ite (syscallReturnSet_does _)
    (.bind (messagePeek_does _) fun _ => .bind .get fun _ =>
      .ite (.bind (derefThread_does _) fun _ => syscallReturnSet_does _) (syscallReturnSet_does _))

theorem syscallDrop_does (info : Word) :
    Does [.log, .ram, .queue, .history, .state, .sched, .active, .result, .fault]
      (syscallDrop info) :=
  .sub <| .bind .get fun _ => .bind (virtualIsMapped_does _ _ _) fun _ =>
    .ite (syscallReturnSet_does _) (.bind (derefThread_does _) fun _ =>
      .ite (syscallReturnSet_does _) (.bind (messageRemove_does _ _) fun _ =>
        .bind (record_does _) fun _ => .bind .get fun _ => .bind (userWord_does _) fun _ =>
          .bind (.runIf (schedulerAdd_does _)) fun _ => syscallReturnSet_does _))

theorem syscallWait_does (sender : IpcPort) :
    Does [.links, .result, .lock, .task, .state, .sched, .active, .cr3, .frame]
      (syscallWait sender) :=
  .sub <| .bind .get fun _ => .bind (messageFind_does _ _) fun _ =>
    .ite (syscallReturnSet_does _) (.bind .get fun _ => .ite (syscallReturnSet_does _)
      (.bind .get fun _ => .ite (syscallReturnSet_does _) (sleepCaller_does _ _)))

theorem syscallYield_does : Does [.result, .sched, .active, .cr3, .task, .frame] syscallYield :=
  .bind (syscallReturnSet_does _) fun _ => schedulerNext_does

/-! ## Memory calls -/

theorem syscallVmap_does (dest size : Word) : Does [.paging, .result] (syscallVmap dest size) :=
  .sub <| .ite (syscallReturnSet_does _) (.ite (syscallReturnSet_does _)
    (.ite (syscallReturnSet_does _) (.ite (syscallReturnSet_does _)
      (.bind .get fun _ => .bind (derefProcess_does _) fun _ =>
        .bind (virtualIsMapped_does _ _ _) fun _ => .ite (syscallReturnSet_does _)
          (.bind (virtualAlloc_does _ _ _) fun _ => syscallReturnSet_does _)))))

theorem syscallPmap_does (dest src size : Word) :
    Does [.paging, .result] (syscallPmap dest src size) :=
  .sub <| .ite (syscallReturnSet_does _) (.ite (syscallReturnSet_does _)
    (.ite (syscallReturnSet_does _) (.ite (syscallReturnSet_does _) (.ite (syscallReturnSet_does _)
      (.bind .get fun _ => .bind (derefProcess_does _) fun _ => .ite (syscallReturnSet_does _)
        (.bind (virtualIsMapped_does _ _ _) fun _ => .ite (syscallReturnSet_does _)
          (.bind (virtualMap_does _ _ _ _) fun _ => syscallReturnSet_does _)))))))

theorem syscallUnmap_does (addr size : Word) : Does [.paging, .result] (syscallUnmap addr size) :=
  .sub <| .ite (syscallReturnSet_does _) (.ite (syscallReturnSet_does _)
    (.ite (syscallReturnSet_does _) (.ite (syscallReturnSet_does _)
      (.bind .get fun _ => .bind (derefProcess_does _) fun _ =>
        .bind (virtualIsMapped_does _ _ _) fun _ => .ite (syscallReturnSet_does _)
          (.bind (virtualUnmap_does _ _ _) fun _ => syscallReturnSet_does _)))))

theorem syscallGrant_does (info dest : Word) :
    Does [.log, .paging, .result, .fault] (syscallGrant info dest) :=
  .sub <| .bind .get fun _ => .bind (virtualIsMapped_does _ _ _) fun _ =>
    .ite (syscallReturnSet_does _) (.bind (fetchShm_does _) fun _ => .ite (syscallReturnSet_does _)
      (.bind .get fun _ => .ite (syscallReturnSet_does _) (.bind .get fun _ =>
        .ite (syscallReturnSet_does _) (.bind (.orThrow (by decide) _) fun _ =>
          .bind (derefProcess_does _) fun _ => .ite (syscallReturnSet_does _)
            (.ite (syscallReturnSet_does _) (.ite (syscallReturnSet_does _)
              (.ite (syscallReturnSet_does _) (.bind (virtualIsMapped_does _ _ _) fun _ =>
                .ite (syscallReturnSet_does _) (.bind (virtualIsMapped_does _ _ _) fun _ =>
                  .ite (syscallReturnSet_does _) (.bind (virtualShare_does _ _ _ _ _ _) fun _ =>
                    .bind (virtualUnmap_does _ _ _) fun _ => syscallReturnSet_does _))))))))))

theorem syscallShare_does (info : Word) :
    Does [.log, .offer, .result, .fault] (syscallShare info) :=
  .sub <| .bind .get fun _ => .bind (virtualIsMapped_does _ _ _) fun _ =>
    .ite (syscallReturnSet_does _) (.bind (fetchShm_does _) fun _ => .ite (syscallReturnSet_does _)
      (.bind .get fun _ => .ite (syscallReturnSet_does _) (.bind .get fun _ =>
        .ite (syscallReturnSet_does _) (.ite (syscallReturnSet_does _)
          (.ite (syscallReturnSet_does _) (.bind (derefThread_does _) fun _ =>
            .bind (Does.change fun _ => .offer ..) fun _ => syscallReturnSet_does _))))))

theorem syscallAccept_does (sid dest size : Word) :
    Does [.paging, .result] (syscallAccept sid dest size) :=
  .sub <| .ite (syscallReturnSet_does _) (.bind .get fun _ => .bind .get fun _ =>
    .ite (syscallReturnSet_does _) (.bind .get fun _ => .bind (portFromUid_does _) fun _ =>
      .ite (syscallReturnSet_does _) (.ite (syscallReturnSet_does _) (.ite (syscallReturnSet_does _)
        (.bind (virtualIsMapped_does _ _ _) fun _ => .ite (syscallReturnSet_does _)
          (.bind (virtualShare_does _ _ _ _ _ _) fun _ => syscallReturnSet_does _))))))

/-! ## Services -/

theorem irqSet_does (line : Nat) (handle : IrqHandle) (enabled : Bool) :
    Does [.irq] (irqSet line handle enabled) := Does.change fun _ => .irq ..

theorem serviceGet_does (svc : Nat) : Does [.irq] (serviceGet svc) :=
  .bind (dassert_does _) fun _ => .bind .get fun _ => .ite (.pure _)
    (.ite (.bind (irqSet_does _ _ _) fun _ => .pure _) (.pure _))

theorem serviceRegister_does (svc : Nat) (uid : ThreadUid) :
    Does [.irq, .service] (serviceRegister svc uid) :=
  .sub <| .bind (dassert_does _) fun _ => .bind (serviceGet_does _) fun _ =>
    .bind (dassert_does _) fun _ => .bind .get fun _ => .bind (dassertSome_does _) fun _ =>
      .bind (portFromUid_does _) fun _ => .bind (Does.change fun _ => .service ..) fun _ =>
        .ite (irqSet_does _ _ _) (.pure _)

theorem syscallSvcown_does (svc : Word) : Does [.irq, .service, .result] (syscallSvcown svc) :=
  .sub <| .ite (syscallReturnSet_does _) (.bind (serviceGet_does _) fun _ =>
    .ite (syscallReturnSet_does _) (.bind .get fun _ => .bind (derefProcess_does _) fun _ =>
      .ite (syscallReturnSet_does _) (.bind (serviceRegister_does _ _) fun _ =>
        syscallReturnSet_does _)))

theorem syscallSvcid_does (svc : Word) : Does [.irq, .result] (syscallSvcid svc) :=
  .sub <| .ite (syscallReturnSet_does _) (.bind (serviceGet_does _) fun _ =>
    syscallReturnSet_does _)

/-! ## Processes and threads -/

theorem threadKill_does (uid : ThreadUid) : Does [.exit] (threadKill uid) :=
  .bind .get fun _ => .bind (dassertSome_does _) fun _ => .bind (dassert_does _) fun _ =>
    Does.change fun _ => .exit ..

theorem killThreads_does (pid : Pid) (l : List Tid) : Does [.exit] (killThreads pid l) := by
  induction l with
  | nil => exact .sub (.pure _)
  | cons tid rest ih =>
    exact .sub <| .bind .get fun _ => .bind (.runIf (threadKill_does _)) fun _ => ih

theorem processKill_does (pid : Pid) : Does [.exit, .free, .paging] (processKill pid) :=
  .sub <| .bind .get fun _ => .bind (dassertSome_does _) fun _ => .bind (killThreads_does _ _) fun _ =>
    .bind (Does.change fun _ => .free ..) fun _ => .bind (liftVm_does (pagingDirDestroy_does _))
      fun _ => .bind .get fun _ => virtualUnmap_does _ _ _

theorem purgeAndKill_does (pid : Pid) :
    Does [.state, .sched, .active, .exit, .free, .paging] (purgeAndKill pid) :=
  .bind (schedulerPurge_does pid) fun _ => processKill_does pid

theorem tkillTarget_does (uid : ThreadUid) :
    Does [.state, .sched, .active, .exit, .free, .paging] (tkillTarget uid) :=
  .sub <| .ite (purgeAndKill_does _) (.bind (schedulerRemove_does _) fun _ => threadKill_does _)

theorem internalTkill_does (uid : ThreadUid) :
    Does [.lock, .task, .state, .sched, .active, .exit, .free, .paging, .cr3, .frame]
      (internalTkill uid) :=
  .sub <| .bind .get fun _ => .bind (.runIf schedulerLock_does) fun _ =>
    .bind (tkillTarget_does _) fun _ => unlockIfLocked_does

theorem killTarget_does (owner : Option Process) (pid : BitVec 16) :
    Does [] (killTarget owner pid) :=
  .ite (.pure _) (.bind (.orThrow (by decide) _) fun _ => .pure _)

theorem modifyProcess_does (pid : Pid) (f : Process → Process) :
    Does [.create] (modifyProcess pid f) := Does.change fun _ => .create ..

theorem threadNew_does (pid : Pid) (entry : Word) : Does [.create, .paging] (threadNew pid entry) :=
  .sub <| .bind .get fun _ => .bind (dassertSome_does _) fun _ => .bind (dassertSome_does _) fun _ =>
    .bind (.failIf (by decide) _) fun _ => .bind (modifyProcess_does _ _) fun _ => .bind .get fun _ =>
      .bind (virtualAlloc_does _ _ _) fun _ => .bind (Does.change fun _ => .create ..) fun _ =>
        .bind (modifyProcess_does _ _) fun _ => .bind (Does.change fun _ => .create ..) fun _ =>
          .pure _

theorem processNew_does (ppid : Pid) (entry : Word) :
    Does [.create, .paging] (processNew ppid entry) :=
  .sub <| .bind .get fun _ => .bind (dassertSome_does _) fun _ => .bind (.failIf (by decide) _) fun _ =>
    .bind (Does.change fun _ => .create ..) fun _ => .bind .get fun _ =>
      .bind (virtualAlloc_does _ _ _) fun _ => .bind .get fun _ =>
        .bind (Does.change fun _ => .create ..) fun _ => .bind (Does.change fun _ => .create ..)
          fun _ => .bind .get fun _ => .bind (liftVm_does pagingDirCreate_does) fun _ =>
            .bind (modifyProcess_does _ _) fun _ => .pure _

theorem syscallSpawn_does : Does [.create, .paging, .result] syscallSpawn :=
  .sub <| .bind .get fun _ => .bind (processNew_does _ _) fun _ => syscallReturnSet_does _

theorem syscallLaunch_does (pid : BitVec 16) (entry : Word) :
    Does [.entry, .create, .paging, .state, .sched, .active, .result] (syscallLaunch pid entry) :=
  .sub <| .bind .get fun _ => .bind .get fun _ => .bind .get fun _ => .ite (syscallReturnSet_does _)
    (.bind (.orThrow (by decide) _) fun _ =>
      .ite (syscallReturnSet_does _) (.bind (.orThrow (by decide) _) fun _ =>
      .ite (syscallReturnSet_does _) (.bind (Does.change fun _ => .entry ..) fun _ =>
        .bind (threadNew_does _ _) fun _ => .bind (schedulerAdd_does _) fun _ =>
          syscallReturnSet_does _)))

theorem syscallDispatch_does (entry stack : Word) :
    Does [.create, .paging, .task, .state, .sched, .active, .result]
      (syscallDispatch entry stack) :=
  .sub <| .bind .get fun _ => .bind (threadNew_does _ _) fun _ => .bind (derefThread_does _) fun _ =>
    .bind (Does.change fun _ => .task ..) fun _ => .bind (schedulerAdd_does _) fun _ =>
      syscallReturnSet_does _

end Horizon
