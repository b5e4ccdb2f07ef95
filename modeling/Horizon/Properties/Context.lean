import Horizon.System.Context
import Horizon.System.Exposed
import Horizon.Properties.RunQueue
import Horizon.Properties.FailedCalls

/-!
# Horizon — threads go on in the registers they were interrupted in

`Contexts saved k` says that user mode is entered in the right registers: `saved` gives for every
thread the registers it left user mode in, with the return value of its system call, or nothing
if it has not run yet. The registers of the running thread are in the interrupt frame, those of
the others in their control blocks; while the scheduler is locked (`Parked`) all of them are in
the control blocks.

A thread is interrupted in the middle of a system call only by a page fault of its own, which
kills it. The invariant has to hold there as well (`Paused`), because the fault is handled by the
same code.

The control blocks have to be left alone meanwhile. A message that is received into the registers
of a thread that does not run is what this thread goes on in (`recv_moves_eip`).
-/

namespace Horizon

open StateError

variable {k k' : Kernel} {a uid : ThreadUid} {f : IntFrame} {v : Word}

/-- For each thread the registers in which it is to go on, none if it has not run. -/
abbrev Saved := ThreadUid → Option IntFrame

variable {saved : Saved}

/-- A control block holds the expected registers. An `EIP` of zero marks a new thread. -/
def Holds (expected : Option IntFrame) (frame : IntFrame) : Prop :=
  match expected with
  | none => frame.eip = 0
  | some f => frame = f ∧ f.eip ≠ 0

/-- User mode is entered in the expected registers. -/
def Resumes (expected : Option IntFrame) (task : TaskInfo) (frame : IntFrame) : Prop :=
  match expected with
  | none => frame.eip = task.entry ∧ frame.userEsp = task.stack
  | some f => frame = f

theorem Holds.resumes (h : Holds (saved uid) (k.thread uid).task.frame) :
    Resumes (saved uid) (k.thread uid).task (k.resumeFrame uid) := by
  unfold Holds at h
  unfold Resumes Kernel.resumeFrame
  cases hs : saved uid with
  | none =>
    rw [hs] at h
    rw [if_pos h]
    exact ⟨rfl, rfl⟩
  | some f =>
    rw [hs] at h
    rw [h.1, if_neg h.2]

/-- The threads that do not run have their registers in their control blocks. -/
structure Paused (saved : Saved) (k : Kernel) : Prop where
  unlocked : k.locked = false
  live : k.live k.activeThread = true
  others : ∀ u, k.live u = true → u ≠ k.activeThread → Holds (saved u) (k.thread u).task.frame
  dir : k.vm.cr3 = (k.blocks (k.thread k.activeThread).owner).process.addrSpace

/-- User mode is entered in the right registers and address space. -/
structure Contexts (saved : Saved) (k : Kernel) : Prop extends Paused saved k where
  current : Resumes (saved k.activeThread) (k.thread k.activeThread).task k.frame

/-- The kernel is working for thread `a`, which has entered it with the frame `f`. -/
structure Serving (saved : Saved) (a : ThreadUid) (f : IntFrame) (k : Kernel) : Prop
    extends Paused saved k where
  active : k.activeThread = a
  frame : k.frame = { f with eax := k.frame.eax }
  eip : f.eip ≠ 0

/-- The scheduler is locked; all registers are in the control blocks. -/
structure Parked (saved : Saved) (k : Kernel) : Prop where
  locked : k.locked = true
  all : ∀ u, k.live u = true → Holds (saved u) (k.thread u).task.frame

theorem Paused.running (h : Paused saved k) (hr : Running k k') : Paused saved k' where
  unlocked := hr.locked.trans h.unlocked
  live := by
    rw [hr.active]
    exact hr.alive _ h.live
  others u hu hne := by
    rw [hr.task]
    exact h.others u (hr.live u hu) (hr.active ▸ hne)
  dir := by rw [hr.cr3, hr.active, hr.owner, hr.addrSpace, h.dir]

theorem Serving.running (h : Serving saved a f k) (hr : Running k k') : Serving saved a f k' where
  toPaused := h.toPaused.running hr
  active := hr.active.trans h.active
  frame := by
    rw [hr.frame]
    exact h.frame
  eip := h.eip

theorem Serving.inert (h : Serving saved a f k) (hi : Inert k k') : Serving saved a f k' := by
  rw [hi.eq]
  exact ⟨⟨h.unlocked, h.live, h.others, h.dir⟩, h.active, by rw [h.frame], h.eip⟩

theorem Parked.kept (h : Parked saved k) (hk : Kept k k') : Parked saved k' where
  locked := hk.locked.trans h.locked
  all u hu := by
    rw [hk.task]
    exact h.all u (hk.live u hu)

theorem Serving.contexts (h : Serving saved a f k) :
    Contexts (Function.update saved a (some k.frame)) k where
  unlocked := h.unlocked
  live := h.live
  others u hu hne := by
    rw [Function.update_of_ne (fun hua => hne (hua.trans h.active.symm))]
    exact h.others u hu hne
  dir := h.dir
  current := by
    rw [h.active, Function.update_self]
    rfl

theorem Serving.pid_ne_zero (h : Serving saved a f k) : k.activeThread.pid ≠ 0 :=
  Kernel.pid_ne_zero_of_live h.live

/-! ## The scheduler -/

theorem preserve_task {u : ThreadUid} : ((k.preserve uid).thread u).task =
    if u = uid then { (k.thread uid).task with frame := k.frame } else (k.thread u).task := by
  rw [Kernel.preserve, Kernel.thread_setThread]
  split <;> rfl

theorem preserve_owner {u : ThreadUid} : ((k.preserve uid).thread u).owner = (k.thread u).owner :=
  (taskPreserve_undisturbed uid k).owner u

theorem preserve_live {u : ThreadUid} : (k.preserve uid).live u = k.live u :=
  (taskPreserve_undisturbed uid k).live u

theorem preserve_process {pid : Pid} :
    ((k.preserve uid).blocks pid).process = (k.blocks pid).process := Kernel.process_setThread

/-- Locking the scheduler puts the running thread's registers where those of the others are. -/
theorem Serving.lock (h : Serving saved a f k) (hlock : schedulerLock k = .ok () k') :
    Parked (Function.update saved a (some k.frame)) k' := by
  rw [schedulerLock_apply h.live] at hlock
  cases hlock
  refine ⟨rfl, fun u hu => ?_⟩
  rw [preserve_live] at hu
  rw [preserve_task]
  by_cases hua : u = k.activeThread
  · rw [if_pos hua, hua, h.active, Function.update_self]
    refine ⟨rfl, ?_⟩
    rw [h.frame]
    exact h.eip
  · rw [if_neg hua, Function.update_of_ne (fun heq => hua (heq.trans h.active.symm))]
    exact h.others u hu hua

/-- Unlocking it loads the registers and the address space of whoever is to run. -/
theorem Parked.unlock (h : Parked saved k) (hunlock : schedulerUnlock k = .ok () k') :
    Contexts saved k' := by
  have hinv := hunlock
  rw [schedulerUnlock, get_bind_apply] at hinv
  obtain ⟨_, _, hassert, hinv⟩ := bind_eq_ok.mp hinv
  obtain ⟨hactive, rfl⟩ := dassert_eq_ok.mp hassert
  rw [modify_bind_apply] at hinv
  obtain ⟨_, _, hthread, hinv⟩ := bind_eq_ok.mp hinv
  obtain ⟨hlive, rfl, rfl⟩ := derefThread_eq_ok.mp hthread
  obtain ⟨_, _, hproc, -⟩ := bind_eq_ok.mp hinv
  have howner := (derefProcess_eq_ok.mp hproc).1
  rw [schedulerUnlock_apply hactive hlive howner] at hunlock
  cases hunlock
  exact ⟨⟨rfl, hlive, fun u hu _ => h.all u hu, rfl⟩, (h.all _ hlive).resumes⟩

theorem schedulerNext_meets (h : schedulerNext k = .ok () k') :
    k.activeThread = k.next k.activeThread ∨
      k.live (k.next k.activeThread) = true ∧
        ((k.thread k.activeThread).owner ≠ (k.thread (k.next k.activeThread)).owner →
          k.liveProcess (k.thread (k.next k.activeThread)).owner = true) := by
  by_cases halone : k.activeThread = k.next k.activeThread
  · exact Or.inl halone
  refine Or.inr ?_
  rw [schedulerNext, get_bind_apply] at h
  obtain ⟨_, _, hderef, h⟩ := bind_eq_ok.mp h
  obtain ⟨-, rfl, rfl⟩ := derefThread_eq_ok.mp hderef
  rw [bind_apply_of_ok modifySched_apply] at h
  have h' := (congrFun (if_neg halone) _).symm.trans h
  change ((dassertSome ((k.turned k.activeThread).threadGet (k.next k.activeThread)) >>= _ :
    KernelM Unit)) (k.turned k.activeThread) = .ok () k' at h'
  obtain ⟨_, _, hget, hrest⟩ := bind_eq_ok.mp h'
  obtain ⟨hlive, rfl, rfl⟩ := dassertSome_threadGet_eq_ok.mp hget
  rw [Kernel.live_turned] at hlive
  refine ⟨hlive, fun howner => ?_⟩
  rw [Kernel.owner_turned] at hrest
  obtain ⟨_, _, hload, -⟩ := bind_eq_ok.mp hrest
  rw [runIf_apply_pos howner] at hload
  obtain ⟨_, _, hproc, -⟩ := bind_eq_ok.mp hload
  exact (derefProcess_eq_ok.mp hproc).1

theorem Kernel.task_turned {u : ThreadUid} : ((k.turned uid).thread u).task = (k.thread u).task := by
  rw [turned, thread_withActive, setSched, thread_setThread]
  split
  · next hu => rw [hu]
  · rfl

theorem Kernel.process_turned {pid : Pid} :
    ((k.turned uid).blocks pid).process = (k.blocks pid).process := process_setThread

theorem Kernel.cr3_turned : (k.turned uid).vm.cr3 = k.vm.cr3 := rfl

theorem Kernel.live_loadDir {pid : Pid} : (k.loadDir pid).live = k.live := rfl

theorem Kernel.thread_loadDir {pid : Pid} : (k.loadDir pid).thread = k.thread := rfl

theorem Kernel.blocks_loadDir {pid : Pid} : (k.loadDir pid).blocks = k.blocks := rfl

theorem Kernel.cr3_loadDir {pid : Pid} :
    (k.loadDir pid).vm.cr3 = (k.blocks pid).process.addrSpace := rfl

/-- The end of a switch, from a state `q` in which the next thread is active already. -/
theorem Serving.resume {q : Kernel} (h : Serving saved a f k)
    (hlive : k.live uid = true) (hlocked : q.locked = k.locked) (hactive : q.activeThread = uid)
    (hlives : q.live = k.live) (hframe : q.frame = k.frame)
    (htask : ∀ u, (q.thread u).task = (k.thread u).task)
    (hdir : q.vm.cr3 = (q.blocks (q.thread uid).owner).process.addrSpace) :
    Contexts (Function.update saved a (some k.frame)) ((q.preserve a).resume uid) := by
  have hholds : ∀ u, k.live u = true → Holds (Function.update saved a (some k.frame) u)
      ((q.preserve a).thread u).task.frame := by
    intro u hlive
    rw [preserve_task]
    by_cases hua : u = a
    · rw [if_pos hua, hua, Function.update_self, hframe]
      refine ⟨rfl, ?_⟩
      rw [h.frame]
      exact h.eip
    · rw [if_neg hua, Function.update_of_ne hua, htask]
      exact h.others u hlive fun heq => hua (heq.trans h.active)
  have hpreserve : (q.preserve a).activeThread = uid := hactive
  refine ⟨⟨hlocked.trans h.unlocked, ?_, fun u hlive _ => ?_, ?_⟩, ?_⟩
  · show (q.preserve a).live (q.preserve a).activeThread = true
    rw [preserve_live, hpreserve, hlives]
    exact hlive
  · refine hholds u ?_
    have hq : (q.preserve a).live u = true := hlive
    rwa [preserve_live, hlives] at hq
  · show (q.preserve a).vm.cr3 = ((q.preserve a).blocks
      ((q.preserve a).thread (q.preserve a).activeThread).owner).process.addrSpace
    rw [preserve_process, hpreserve, preserve_owner]
    exact hdir
  · show Resumes (Function.update saved a (some k.frame) (q.preserve a).activeThread)
      ((q.preserve a).thread (q.preserve a).activeThread).task ((q.preserve a).resumeFrame uid)
    rw [hpreserve]
    exact (hholds uid hlive).resumes

theorem Serving.next (h : Serving saved a f k) (hnext : schedulerNext k = .ok () k') :
    Contexts (Function.update saved a (some k.frame)) k' := by
  have hlive : k.live a = true := h.active ▸ h.live
  have hmeets := schedulerNext_meets hnext
  rw [h.active] at hmeets
  by_cases halone : a = k.next a
  · -- The only runnable thread goes on.
    rw [schedulerNext_alone h.active hlive halone] at hnext
    cases hnext
    have hturned : k.turned a =
        k.setSched a fun s => { s with timeslice := schedulerTimeslice } := by
      rw [Kernel.turned, ← halone, ← h.active]
      rfl
    rw [hturned]
    have hrunning : Running k (k.setSched a fun s => { s with timeslice := schedulerTimeslice }) :=
      running_setThread rfl rfl
    have hserving := (h.running hrunning).contexts
    rwa [hrunning.frame] at hserving
  · obtain ⟨hlive', howner⟩ := hmeets.resolve_left halone
    rw [schedulerNext_switch h.active hlive halone hlive' howner] at hnext
    cases hnext
    have hdir := h.dir
    rw [h.active] at hdir
    by_cases hsame : (k.thread a).owner ≠ (k.thread (k.next a)).owner
    · have hloaded : k.advanced a = (((k.turned a).loadDir (k.thread (k.next a)).owner).preserve
          a).resume (k.next a) := by
        rw [Kernel.advanced]
        simp only [if_pos hsame]
      rw [hloaded]
      refine h.resume hlive' rfl rfl ?_ rfl (fun u => ?_) ?_
      · rw [Kernel.live_loadDir, Kernel.live_turned]
      · rw [Kernel.thread_loadDir, Kernel.task_turned]
      · rw [Kernel.cr3_loadDir, Kernel.thread_loadDir, Kernel.blocks_loadDir, Kernel.owner_turned]
    · have hkept : k.advanced a = ((k.turned a).preserve a).resume (k.next a) := by
        rw [Kernel.advanced]
        simp only [if_neg hsame]
      rw [hkept]
      refine h.resume hlive' rfl rfl Kernel.live_turned rfl (fun u => Kernel.task_turned) ?_
      rw [Kernel.cr3_turned, Kernel.owner_turned, Kernel.process_turned, ← not_not.mp hsame]
      exact hdir

theorem Serving.tick (h : Serving saved a f k) (htick : timerTick k = .ok () k') :
    Contexts (Function.update saved a (some k.frame)) k' := by
  have hticked : Running k (k.ticked a) := running_setThread rfl rfl
  rw [timerTick_apply h.active (h.active ▸ h.live)] at htick
  have hserving := h.running hticked
  rw [← hticked.frame]
  split at htick
  · exact hserving.next htick
  · cases htick
    exact hserving.contexts

/-! ## Working for a thread -/

/-- The kernel has been working for the same thread, and may have set its return value. -/
structure Busy (k k' : Kernel) : Prop extends Kept k k' where
  alive : ∀ u, k.live u = true → k'.live u = true
  active : k'.activeThread = k.activeThread
  frame : k'.frame = { k.frame with eax := k'.frame.eax }
  cr3 : k'.vm.cr3 = k.vm.cr3

instance : Std.Refl Busy where
  refl k := ⟨Std.Refl.refl k, fun _ => id, rfl, rfl, rfl⟩

instance : IsTrans Kernel Busy where
  trans _ _ _ h₁ h₂ := by
    refine ⟨IsTrans.trans _ _ _ h₁.toKept h₂.toKept, fun u hu => h₂.alive u (h₁.alive u hu),
      h₂.active.trans h₁.active, ?_, h₂.cr3.trans h₁.cr3⟩
    have hframe := h₂.frame
    rw [h₁.frame] at hframe
    exact hframe

theorem Running.busy (h : Running k k') : Busy k k' :=
  ⟨h.toKept, h.alive, h.active, by rw [h.frame], h.cr3⟩

theorem Change.busy {e : Effect} (h : Change e k k') (he : e ∈ .result :: Effect.running) :
    Busy k k' := by
  rcases he with _ | ⟨_, he⟩
  · cases h
    exact ⟨⟨fun _ => id, fun _ => rfl, fun _ => rfl, fun _ => rfl, rfl⟩, fun _ => id, rfl, rfl, rfl⟩
  · exact (h.running he).busy

theorem Does.busy {α : Type} {S : List Effect} {x : KernelM α}
    [hS : Within S (.result :: Effect.running)] (h : Does S x) : Ensures Busy x :=
  h.ensures fun e he _ _ hc => hc.busy (hS.mem e he)

theorem Serving.busy (h : Serving saved a f k) (hb : Busy k k') : Serving saved a f k' where
  unlocked := hb.locked.trans h.unlocked
  live := by
    rw [hb.active]
    exact hb.alive _ h.live
  others u hu hne := by
    rw [hb.task]
    exact h.others u (hb.live u hu) (hb.active ▸ hne)
  dir := by rw [hb.cr3, hb.active, hb.owner, hb.addrSpace, h.dir]
  active := hb.active.trans h.active
  frame := by
    have hframe := hb.frame
    rw [h.frame] at hframe
    exact hframe
  eip := h.eip

/-- A page fault has happened: with the scheduler locked, or while serving a thread. -/
def Faulted (saved : Saved) (e : Fault) (k : Kernel) : Prop :=
  e = .pageFault → k.locked = true ∨ Paused saved k

theorem Serving.faulted (h : Serving saved a f k) (x : Option IntFrame) (e : Fault) :
    Faulted (Function.update saved a x) e k := fun _ => Or.inr
  ⟨h.unlocked, h.live, fun u hu hne => by
    rw [Function.update_of_ne fun hua => hne (hua.trans h.active.symm)]
    exact h.others u hu hne, h.dir⟩

/-- `x`, started from `k`, returns to user mode in the right registers. -/
abbrev Returns (saved : Saved) (x : KernelM Unit) (k : Kernel) : Prop :=
  Post (fun _ k' => Contexts saved k') (Faulted saved) (x k)

theorem Serving.bind {α : Type} {x : KernelM α} {g : α → KernelM Unit} {o : Option IntFrame}
    (h : Serving saved a f k) (hx : Ensures Busy x)
    (hg : ∀ b k', x k = .ok b k' → Serving saved a f k' →
      Returns (Function.update saved a o) (g b) k') :
    Returns (Function.update saved a o) (x >>= g) k := by
  refine Post.bind (Q := fun b k' => x k = .ok b k') (.of_ok (fun _ _ h => h) ?_) ?_
  · exact fun e _ he => (h.busy (hx.error he)).faulted o e
  · exact fun b t hb => hg b t hb (h.busy (hx.ok hb))

theorem Serving.bind_running {α : Type} {x : KernelM α} {g : α → KernelM Unit}
    {o : Option IntFrame} (h : Serving saved a f k) (hx : Ensures Running x)
    (hg : ∀ b k', Running k k' → Serving saved a f k' →
      Returns (Function.update saved a o) (g b) k') :
    Returns (Function.update saved a o) (x >>= g) k :=
  h.bind (hx.mono fun _ _ => Running.busy) fun b k' hb hs => hg b k' (hx.ok hb) hs

theorem Serving.return (h : Serving saved a f k) (hv : k.frame.eax = v) :
    Contexts (Function.update saved a (some { f with eax := v })) k := by
  have hcontexts := h.contexts
  rwa [h.frame, hv] at hcontexts

theorem Serving.returnSet (h : Serving saved a f k) (v : Word) :
    Returns (Function.update saved a (some { f with eax := v })) (syscallReturnSet v) k :=
  (h.inert ((syscallReturnSet_does v).inert.ok rfl)).return rfl

/-- Something that cannot fault, and returns in the right registers if it returns. -/
theorem Returns.of_noFault {x : KernelM Unit} (hx : Never .pageFault x)
    (h : ∀ k', x k = .ok () k' → Contexts saved k') : Returns saved x k :=
  .of_ok (fun _ k' hk' => h k' hk') fun _ k' he heq => absurd (heq ▸ he) (hx k k')

/-- The same thread is running when `x` is done, or faults. -/
abbrev StaysRunning {α : Type} (x : KernelM α) (k : Kernel) : Prop :=
  Post (fun _ k' => Running k k') (fun e k' => e = .pageFault → Running k k') (x k)

theorem StaysRunning.of_ensures {α : Type} {x : KernelM α} (hx : Ensures Running x) :
    StaysRunning x k := Post.of_ensures hx (fun _ _ h => h) fun _ _ h _ => h

theorem StaysRunning.bind {α β : Type} {x : KernelM α} {g : α → KernelM β}
    (hx : StaysRunning x k) (hg : ∀ b t, Running k t → StaysRunning (g b) t) :
    StaysRunning (x >>= g) k :=
  Post.bind hx fun b t ht => (hg b t ht).mono (fun _ _ h => IsTrans.trans _ _ _ ht h)
    fun _ _ h he => IsTrans.trans _ _ _ ht (h he)

/-! ## Sending -/

section Send

variable {caller target : ThreadUid} {port dest : IpcPort} {src buf size : Word}
  {info : KernelM Msg} {event : Msg → IpcEvent}

/-- Delivering does not interrupt the thread that is running. -/
theorem deliver_running (hactive : k.activeThread.pid ≠ 0) (hinfo : Does [.log, .fault] info) :
    StaysRunning (deliver target port info event) k := by
  refine .bind (.of_ensures .get) fun _ t hget =>
    .bind (.of_ensures (messageAdd_does hinfo _ _ _).running) fun msg t hadd =>
      .bind (.of_ensures (record_does _).running) fun _ t hrecord => ?_
  refine Post.runIf (fun _ => .of_ok (fun _ t' hwake => ?_) fun e t' herr he => ?_)
    fun _ => Std.Refl.refl t
  · refine schedulerAdd_running ?_ hwake
    rw [hrecord.active, hadd.active, hget.active]
    exact hactive
  · exact absurd (he ▸ herr) ((schedulerAdd_does _).noFault _ _)

theorem unlockIfLocked_of_unlocked (hunlocked : k.locked = false)
    (hactive : k.activeThread.pid ≠ 0) : unlockIfLocked k = .ok () k := by
  have hcurr : k.schedulerCurr = k.activeThread := by
    rw [Kernel.schedulerCurr, hunlocked]
    rfl
  rw [unlockIfLocked, get_bind_apply, hcurr, if_neg hactive]
  rfl

theorem unlockIfLocked_of_locked (hlocked : k.locked = true) :
    unlockIfLocked k = schedulerUnlock k := by
  have hcurr : k.schedulerCurr = 0 := by
    rw [Kernel.schedulerCurr, hlocked]
    rfl
  rw [unlockIfLocked, get_bind_apply, hcurr]
  exact congrFun (if_pos ThreadUid.zero_pid) k

theorem Serving.sends (h : Serving saved a f k) (heax : k.frame.eax = v) :
    Returns (Function.update saved a (some { f with eax := v }))
      (sendDeliver caller target port src dest buf) k := by
  refine Post.bind ((deliver_running h.pid_ne_zero (fetchMsg_does src dest buf)).mono
    (fun _ _ hr => hr) fun e t hr he => (h.running (hr he)).faulted _ e he) fun _ t hr => ?_
  have hserving := h.running hr
  rw [unlockIfLocked_of_unlocked hserving.unlocked hserving.pid_ne_zero]
  exact hserving.return (by rw [hr.frame, heax])

theorem Parked.sends (h : Parked saved k) :
    Returns saved (sendDeliver caller target port src dest buf) k := by
  refine Post.bind (.of_ensures (deliver_does (fetchMsg_does src dest buf) _ _ _).kept
    (Q := fun _ t => Parked saved t) (fun _ _ hk => h.kept hk)
    fun _ _ hk _ => Or.inl (h.kept hk).locked) fun _ t ht => ?_
  rw [unlockIfLocked_of_locked ht.locked]
  exact Returns.of_noFault schedulerUnlock_does.noFault fun k' hk' => ht.unlock hk'

/-- The sender of a payload is parked with the return value it will see. -/
theorem Serving.blocks (h : Serving saved a f k) (heax : k.frame.eax = v) :
    Returns (Function.update saved a (some { f with eax := v }))
      (do blockCaller caller buf size; sendDeliver caller target port src dest buf) k := by
  refine Post.bind (Q := fun _ t => Parked (Function.update saved a (some { f with eax := v })) t)
    (.of_ok (fun _ t hblock => ?_) fun e t herr he => ?_) fun _ t ht => ht.sends
  · obtain ⟨_, k₁, hlock, hrest⟩ := bind_eq_ok.mp hblock
    have hparked := h.lock hlock
    rw [h.frame, heax] at hparked
    have hkept : Does [.state, .sched, .active] (do
        schedulerRemove caller
        modifyThread caller fun t => { t with
          state := .sending
          syscallInfo := { t.syscallInfo with payloadAddr := buf, payloadSize := size } }) :=
      .sub <| .bind (schedulerRemove_does _) fun _ => Does.change fun _ => .state ..
    exact hparked.kept (hkept.kept.ok hrest)
  · exact absurd (he ▸ herr) ((blockCaller_does _ _ _).noFault _ _)

end Send

/-! ## What the calls decide on -/

/-- If the attempt decides to carry the call out, it does so as `P` says. -/
def Decides (P : KernelM Unit → Kernel → Prop) (x : KernelM Verdict) (k : Kernel) : Prop :=
  ∀ act k₁, x k = .ok (.ok act) k₁ → P act k₁

namespace Decides

variable {P : KernelM Unit → Kernel → Prop} {x y : KernelM Verdict} {c : Prop} [Decidable c]

theorem act {act : KernelM Unit} (h : P act k) : Decides P (return .ok act) k := by
  rintro _ _ ⟨⟩
  exact h

theorem ite (hx : c → Decides P x k) (hy : ¬c → Decides P y k) :
    Decides P (if c then x else y) k := by
  split
  · next h => exact hx h
  · next h => exact hy h

theorem check {code : Word} (hy : Decides P y k) :
    Decides P (if c then return .error code else y) k := ite (fun _ => nofun) fun _ => hy

theorem bind {α : Type} {z : KernelM α} {g : α → KernelM Verdict}
    (h : ∀ b k', z k = .ok b k' → Decides P (g b) k') : Decides P (z >>= g) k := by
  intro act k₁ hact
  obtain ⟨b, t, hz, hg⟩ := bind_eq_ok.mp hact
  exact h b t hz act k₁ hg

theorem get {g : Kernel → KernelM Verdict} (h : Decides P (g k) k) :
    Decides P (MonadState.get >>= g) k := h

theorem serving {α : Type} {z : KernelM α} {g : α → KernelM Verdict} (hs : Serving saved a f k)
    (hz : Ensures Busy z) (h : ∀ b k', Serving saved a f k' → Decides P (g b) k') :
    Decides P (z >>= g) k := bind fun b k' hb => h b k' (hs.busy (hz.ok hb))

end Decides

theorem attemptPayload_busy (caller target : ThreadUid) (port : IpcPort) (src : Word)
    (dest : IpcPort) : Ensures Busy (attemptPayload caller target port src dest) := by
  have hmapped := fun pid virt size => (virtualIsMapped_does pid virt size).busy
  have hword := fun addr => (userWord_does addr).busy
  refine .bind (syscallReturnSet_does _).busy fun _ => .bind (hword _) fun _ =>
    .ite (.bind (hword _) fun _ => .ite (.pure _) ?_) (.pure _)
  exact .bind (hmapped _ _ _) fun _ => .ite (.pure _) (.pure _)

theorem attemptSend_busy (src : Word) : Ensures Busy (attemptSend src) := by
  refine .bind .get fun _ => .bind (portFromUid_does _).busy fun _ =>
    .bind (virtualIsMapped_does _ _ _).busy fun _ => .ite (.pure _) ?_
  refine .bind (userWord_does _).busy fun _ => .ite (.pure _) (.bind .get fun _ =>
    .ite (.pure _) (.bind .get fun _ => .ite (.pure _) ?_))
  exact .bind (derefProcess_does _).busy fun _ =>
    .ite (.pure _) (attemptPayload_busy _ _ _ _ _)

theorem attemptRecv_busy (dest : Word) : Ensures Busy (attemptRecv dest) := by
  have hderef := fun uid => (derefThread_does uid).busy
  have hmapped := fun pid virt size => (virtualIsMapped_does pid virt size).busy
  have hword := fun addr => (userWord_does addr).busy
  refine .bind .get fun _ => .bind (hmapped _ _ _) fun _ => .ite (.pure _) (.bind (hderef _) fun _ =>
    .ite (.pure _) (.bind (messagePeek_does _).busy fun _ => .bind .get fun _ => ?_))
  refine .ite (.bind (hderef _) fun _ => .bind .get fun _ => .bind (hword _) fun _ =>
    .bind (hword _) fun _ => .ite (.pure _) (.bind (hmapped _ _ _) fun _ => ?_)) (.pure _)
  exact .ite (.pure _) (.pure _)

theorem attemptPeek_busy : Ensures Busy attemptPeek :=
  .bind .get fun _ => .bind (derefThread_does _).busy fun _ =>
    .ite (.pure _) (.pure _)

theorem attemptDrop_busy (info : Word) : Ensures Busy (attemptDrop info) :=
  .bind .get fun _ => .bind (virtualIsMapped_does _ _ _).busy fun _ => .ite (.pure _)
    (.bind (derefThread_does _).busy fun _ => .ite (.pure _) (.pure _))

theorem attemptWait_busy (sender : IpcPort) : Ensures Busy (attemptWait sender) := by
  refine .bind .get fun _ => .bind (messageFind_does _ _).busy fun _ =>
    .ite (.pure _) (.bind .get fun _ => .ite (.pure _) (.bind .get fun _ => ?_))
  exact .ite (.pure _) (.pure _)

section Decisions

variable {src dest info : Word} {sender : IpcPort}

theorem attemptSend_decides (h : Serving saved a f k) :
    Decides (Returns (Function.update saved a (some { f with eax := eNONE }))) (attemptSend src)
      k := by
  refine .get (.serving h (portFromUid_does _).busy fun _ _ h => ?_)
  refine .serving h (virtualIsMapped_does _ _ _).busy fun _ _ h => .check ?_
  refine .serving h (userWord_does _).busy fun _ _ h => .check (.get (.check ?_))
  refine .get (.check (.serving h (derefProcess_does _).busy fun _ _ h => .check ?_))
  -- From here on the return value is `ENONE`.
  refine .bind fun _ k₁ hset => ?_
  cases hset
  have hserving := h.inert ((syscallReturnSet_does eNONE).inert.ok rfl)
  refine .bind fun buf k₂ hbuf => ?_
  have hreads := (userWord_does _).reads.ok hbuf
  have h₂ := hserving.running hreads.running
  have heax₂ : k₂.frame.eax = eNONE := by rw [hreads.running.frame]
  refine .ite (fun _ => .bind fun size k₃ hsize => .check (.bind fun _ k₄ hmapped => .check ?_))
    fun _ => .act (h₂.sends heax₂)
  have hreads₃ := (userWord_does _).reads.ok hsize
  have hreads₄ := (virtualIsMapped_does _ _ _).reads.ok hmapped
  refine .act (((h₂.running hreads₃.running).running hreads₄.running).blocks ?_)
  rw [hreads₄.running.frame, hreads₃.running.frame, heax₂]

theorem Serving.sleeps {caller : ThreadUid} (h : Serving saved a f k) :
    Returns (Function.update saved a (some { f with eax := eNONE })) (sleepCaller caller sender)
      k := by
  refine Returns.of_noFault (sleepCaller_does _ _).noFault fun k' hsleep => ?_
  have hserving := h.inert ((syscallReturnSet_does eNONE).inert.ok rfl)
  obtain ⟨_, _, hset, hsleep⟩ := bind_eq_ok.mp hsleep
  cases hset
  obtain ⟨_, k₁, hlock, hsleep⟩ := bind_eq_ok.mp hsleep
  obtain ⟨_, k₂, hremove, hsleep⟩ := bind_eq_ok.mp hsleep
  obtain ⟨_, k₃, hmod, hunlock⟩ := bind_eq_ok.mp hsleep
  have hparked := hserving.lock hlock
  rw [hserving.frame] at hparked
  exact ((hparked.kept ((schedulerRemove_does _).kept.ok hremove)).kept
    ((Does.change fun _ => .state ..).kept.ok hmod)).unlock hunlock

theorem attemptWait_decides (h : Serving saved a f k) :
    Decides (Returns (Function.update saved a (some { f with eax := eNONE }))) (attemptWait sender)
      k := by
  refine .get (.serving h (messageFind_does _ _).busy fun _ _ h => ?_)
  refine .ite (fun _ => .act (h.returnSet eNONE)) fun _ => ?_
  exact .get (.check (.get (.check (.act h.sleeps))))

theorem attemptDrop_decides (h : Serving saved a f k) :
    Decides (Returns (Function.update saved a (some { f with eax := eNONE }))) (attemptDrop info)
      k := by
  refine .get (.serving h (virtualIsMapped_does _ _ _).busy fun _ _ h => .check ?_)
  refine .serving h (derefThread_does _).busy fun _ _ h => .check (.act ?_)
  refine h.bind_running (messageRemove_does _ _).running fun e _ _ h =>
    h.bind_running (record_does _).running fun _ _ _ h => h.bind_running .get fun _ _ _ h => ?_
  refine h.bind_running (userWord_does _).running fun word _ _ h => ?_
  refine Post.bind (Q := fun _ t => Serving saved a f t) (.runIf (fun _ => ?_) fun _ => h)
    fun _ _ h => h.returnSet eNONE
  refine .of_ok (fun _ _ hadd => h.running (schedulerAdd_running h.pid_ne_zero hadd)) ?_
  exact fun e t herr he => absurd (he ▸ herr) ((schedulerAdd_does _).noFault _ _)

/-- The size of the payload of the message at the head of a thread's queue, zero if it has none
or its sender is gone. -/
def Kernel.headSize (k : Kernel) (uid : ThreadUid) : Word :=
  let head := (k.blocks uid.pid).messages (k.thread uid).msgInfo.head.toNat
  let sender := k.portToUid head.sender 0
  if head.payload ∧ sender ≠ 0 then (k.thread sender).syscallInfo.payloadSize else 0

theorem messagePeek_head {port : IpcPort} {hasPayload : Bool}
    (h : messagePeek uid k = .ok (port, hasPayload) k') : k = k' ∧
      port = ((k.blocks uid.pid).messages (k.thread uid).msgInfo.head.toNat).sender ∧
      hasPayload = ((k.blocks uid.pid).messages (k.thread uid).msgInfo.head.toNat).payload := by
  simp only [messagePeek, get_bind_apply, bind_eq_ok, dassertSome, orThrow_eq_ok,
    onBlock_eq_ok] at h
  obtain ⟨_, _, ⟨-, rfl⟩, b, hpeek, rfl⟩ := h
  rw [Block.messagePeek] at hpeek
  obtain ⟨_, _, hassert, hpeek⟩ := bind_eq_ok.mp hpeek
  obtain rfl := (assertLive_eq _).ok hassert
  rw [get_bind_apply] at hpeek
  obtain ⟨_, _, hcount, hpeek⟩ := bind_eq_ok.mp hpeek
  obtain ⟨-, rfl⟩ := failIf_eq_ok.mp hcount
  obtain ⟨index, _, hslot, hpeek⟩ := bind_eq_ok.mp hpeek
  simp only [slotIndex, ite_eq_ok, pure_eq_ok, throw_eq_ok, and_false, or_false] at hslot
  obtain ⟨-, rfl, rfl⟩ := hslot
  obtain ⟨hpair, rfl⟩ := pure_eq_ok.mp hpeek
  cases hpair
  refine ⟨?_, rfl, rfl⟩
  rw [Kernel.setBlock, Function.update_eq_self]

theorem attemptPeek_decides (h : Serving saved a f k) :
    Decides (Returns (Function.update saved a (some { f with eax := k.headSize k.schedulerCurr })))
      attemptPeek k := by
  refine .get (.bind fun _ k₁ hderef => .check (.act ?_))
  obtain ⟨-, rfl, rfl⟩ := derefThread_eq_ok.mp hderef
  refine h.bind (messagePeek_does _).busy fun head k₁ hpeek h => ?_
  obtain ⟨port, hasPayload⟩ := head
  obtain ⟨rfl, rfl, rfl⟩ := messagePeek_head hpeek
  refine h.bind .get fun _ k₂ hget h => ?_
  cases hget
  refine Post.ite (fun hc => ?_) fun hc => ?_
  · refine h.bind (derefThread_does _).busy fun thread k₂ hderef h => ?_
    obtain ⟨-, rfl, rfl⟩ := derefThread_eq_ok.mp hderef
    have hsize : k.headSize k.schedulerCurr = _ := if_pos hc
    rw [hsize]
    exact h.returnSet _
  · have hsize : k.headSize k.schedulerCurr = 0 := if_neg hc
    rw [hsize]
    exact h.returnSet 0

theorem Serving.finishes {caller : ThreadUid} (h : Serving saved a f k) (size : Word) :
    Returns (Function.update saved a (some { f with eax := size })) (recvFinish caller dest size)
      k :=
  h.bind_running (messageRemove_does _ _).running fun _ _ _ h =>
    h.bind_running (record_does _).running fun _ _ _ h => h.returnSet size

theorem attemptRecv_decides (h : Serving saved a f k) :
    Decides (Returns (Function.update saved a (some { f with eax := k.headSize k.schedulerCurr })))
      (attemptRecv dest) k := by
  refine .get (.bind fun _ k₁ hmapped => .check ?_)
  have hreads := (virtualIsMapped_does _ _ _).reads.ok hmapped
  have h₁ := h.running hreads.running
  have hsize : k₁.headSize k.schedulerCurr = k.headSize k.schedulerCurr := by
    rw [hreads.eq]
    rfl
  rw [← hsize]
  generalize k.schedulerCurr = caller
  refine .bind fun _ k₂ hderef => .check (.bind fun head k₃ hpeek => .get ?_)
  obtain ⟨-, rfl, rfl⟩ := derefThread_eq_ok.mp hderef
  obtain ⟨port, hasPayload⟩ := head
  obtain ⟨rfl, rfl, rfl⟩ := messagePeek_head hpeek
  refine .ite (fun hc => ?_) fun hc => ?_
  · have hhead : k₁.headSize caller = _ := if_pos hc
    rw [hhead]
    refine .bind fun sender k₂ hderef => ?_
    obtain ⟨-, rfl, rfl⟩ := derefThread_eq_ok.mp hderef
    refine .get (.serving h₁ (userWord_does _).busy fun addrTo _ h => ?_)
    refine .serving h (userWord_does _).busy fun sizeTo _ h => .check ?_
    refine .serving h (virtualIsMapped_does _ _ _).busy fun _ _ h => .check (.act ?_)
    refine h.bind_running (copyPayload_does _ _ _ _ _).running fun _ _ _ h => ?_
    refine Post.bind (Q := fun _ t => Serving saved a f t) ?_ fun _ _ h => h.finishes _
    refine .of_ok (fun _ _ hadd => h.running (schedulerAdd_running h.pid_ne_zero hadd)) ?_
    exact fun e t herr he => absurd (he ▸ herr) ((schedulerAdd_does _).noFault _ _)
  · have hhead : k₁.headSize caller = 0 := if_neg hc
    rw [hhead]
    exact .act (h₁.finishes 0)

end Decisions

/-! ## Kernel messages and faults -/

theorem Contexts.running (h : Contexts saved k) (hr : Running k k') : Contexts saved k' where
  toPaused := h.toPaused.running hr
  current := by
    rw [hr.active, hr.task, hr.frame]
    exact h.current

theorem internalKsend_running {port : IpcPort} {code : Word} {args : MsgArgs}
    (hactive : k.activeThread.pid ≠ 0) : StaysRunning (internalKsend port code args) k := by
  refine .bind (.of_ensures .get) fun k₀ t h₁ =>
    .bind (.of_ensures (dassert_does _).running) fun _ t h₂ =>
    .bind (.of_ensures (derefProcess_does _).running) fun _ t h₃ =>
      .bind (.of_ensures (.failIf _ _)) fun _ t h₄ =>
        .bind (.of_ensures (derefThread_does _).running) fun _ t h₅ =>
          deliver_running ?_ (.sub (.pure _))
  rw [h₅.active, h₄.active, h₃.active, h₂.active, h₁.active]
  exact hactive

/-- A kernel message to the owner of a service does not interrupt the running thread. -/
theorem notify_running {svc : Nat} {code : Word} {args : MsgArgs}
    (hactive : k.activeThread.pid ≠ 0) : StaysRunning (do
      let port ← serviceGet svc
      if port = {} then return
      internalKsend port code args : KernelM Unit) k := by
  refine .bind (.of_ensures (serviceGet_does _).running) fun port t ht => ?_
  refine Post.ite (fun _ => Std.Refl.refl t) fun _ => internalKsend_running ?_
  rw [ht.active]
  exact hactive

/-- The running thread is killed; the threads that are left have kept their registers. -/
theorem Paused.kill (h : Paused saved k) (hkill : internalTkill k.activeThread k = .ok () k') :
    Contexts saved k' := by
  have hcurr : k.schedulerCurr = k.activeThread := by
    rw [Kernel.schedulerCurr, h.unlocked]
    rfl
  rw [internalTkill, get_bind_apply] at hkill
  obtain ⟨_, k₁, hlock, hkill⟩ := bind_eq_ok.mp hkill
  obtain ⟨_, k₂, htarget, hunlock⟩ := bind_eq_ok.mp hkill
  rw [runIf_apply_pos (by rw [hcurr]), schedulerLock_apply h.live] at hlock
  cases hlock
  have hkept := (tkillTarget_does _).kept.ok htarget
  have hdead : k₂.live k.activeThread = false := (tkillTarget_eq_ok htarget).killed _ (killSet_self _)
  have hparked : Parked saved k₂ := by
    refine ⟨hkept.locked, fun u hu => ?_⟩
    have hne : u ≠ k.activeThread := by
      rintro rfl
      rw [hdead] at hu
      cases hu
    have hlive := hkept.live u hu
    rw [preserve_live] at hlive
    rw [hkept.task, preserve_task, if_neg hne]
    exact h.others u hlive hne
  rw [unlockIfLocked_of_locked hparked.locked] at hunlock
  exact hparked.unlock hunlock

theorem Contexts.pid_ne_zero (h : Contexts saved k) : k.activeThread.pid ≠ 0 :=
  Kernel.pid_ne_zero_of_live h.live

/-- The exception handler, entered from a page fault inside the kernel. -/
theorem killRunning_returns {e : Fault} (h : Faulted saved e k) (he : e = .pageFault) :
    Returns saved killRunning k := by
  rw [Returns, killRunning, get_bind_apply]
  refine Post.bind (Q := fun _ t => Contexts saved t) (.of_ok (fun _ t hkill => ?_) ?_) fun _ t ht => ?_
  · rcases h he with hlocked | hpaused
    · rw [Kernel.schedulerCurr, if_pos hlocked] at hkill
      exact absurd hkill internalTkill_zero
    · rw [Kernel.schedulerCurr, hpaused.unlocked] at hkill
      exact hpaused.kill hkill
  · exact fun e t herr he => absurd (he ▸ herr) ((internalTkill_does _).noFault _ _)
  · refine Post.ite (fun _ => ht) fun _ => ?_
    refine (notify_running ht.pid_ne_zero).mono (fun _ _ hr => ht.running hr) fun _ _ hr he => ?_
    exact Or.inr (ht.toPaused.running (hr he))

theorem recover_contexts {fuel : Nat} {r : EStateM.Result Fault Kernel Unit}
    (hr : Post (fun _ k' => Contexts saved k') (Faulted saved) r) (h : recover fuel r = some k') :
    Contexts saved k' := by
  induction fuel generalizing r with
  | zero =>
    cases r with
    | ok _ t =>
      cases h
      exact hr
    | error e t => cases e <;> cases h
  | succ fuel ih =>
    cases r with
    | ok _ t =>
      cases h
      exact hr
    | error e t =>
      cases e with
      | pageFault => exact ih (killRunning_returns hr rfl) h
      | _ => cases h

/-! ## Events -/

/-- The calls that concern messages and scheduling only. -/
def Syscall.plain : Syscall → Bool
  | .yield | .wait _ | .send _ | .recv _ | .peek | .drop _ => true
  | _ => false

/-- What a call returns if it is carried out. -/
def Syscall.success (k : Kernel) : Syscall → Word
  | .recv _ | .peek => k.headSize k.schedulerCurr
  | _ => eNONE

/-- The return value of a call. -/
def Syscall.result (input : Word) (k : Kernel) (call : Syscall) : Word :=
  match call.attempt input k with
  | .ok (.error code) _ => code
  | _ => call.success k

theorem Serving.yields (h : Serving saved a f k) :
    Returns (Function.update saved a (some { f with eax := eNONE })) syscallYield k := by
  refine h.bind (syscallReturnSet_does _).busy fun _ k₁ hset h => ?_
  cases hset
  refine Returns.of_noFault schedulerNext_does.noFault fun k' hnext => ?_
  have hcontexts := h.next hnext
  rwa [h.frame] at hcontexts

variable {call : Syscall} {input : Word}

theorem Syscall.attempt_busy (hplain : call.plain = true) : Ensures Busy (call.attempt input) := by
  cases call with
  | yield => exact .pure _
  | wait sender => exact attemptWait_busy sender
  | send src => exact attemptSend_busy src
  | recv dest => exact attemptRecv_busy dest
  | peek => exact attemptPeek_busy
  | drop info => exact attemptDrop_busy info
  | _ => cases hplain

theorem Syscall.attempt_decides (hplain : call.plain = true) (h : Serving saved a f k) :
    Decides (Returns (Function.update saved a (some { f with eax := call.success k })))
      (call.attempt input) k := by
  cases call with
  | yield => exact .act h.yields
  | wait sender => exact attemptWait_decides h
  | send src => exact attemptSend_decides h
  | recv dest => exact attemptRecv_decides h
  | peek => exact attemptPeek_decides h
  | drop info => exact attemptDrop_decides h
  | _ => cases hplain

/-- A call returns to its caller with the return value, or to another thread. -/
theorem Syscall.returns (hplain : call.plain = true) (h : Serving saved a f k) :
    Returns (Function.update saved a (some { f with eax := call.result input k }))
      (call.run input) k := by
  rw [Returns, ← call.attempt_finish input]
  cases hattempt : call.attempt input k with
  | error e t =>
    have herror : (call.attempt input >>= Verdict.finish) k = .error e t := by
      rw [bind_apply, hattempt]
    rw [herror]
    exact (h.busy ((attempt_busy hplain).error hattempt)).faulted _ e
  | ok verdict t =>
    rw [bind_apply_of_ok hattempt]
    cases verdict with
    | error code =>
      have hresult : call.result input k = code := by rw [result, hattempt]
      rw [hresult]
      exact (h.inert (call.attempt_inert input k t code hattempt).1).returnSet code
    | ok act =>
      have hresult : call.result input k = call.success k := by rw [result, hattempt]
      rw [hresult]
      exact attempt_decides hplain h act t hattempt

theorem Serving.irq (h : Serving saved a f k) (hframe : k.frame = f) (line : Nat) :
    Returns (Function.update saved a (some f)) (runIrq line) k := by
  have hcontexts := h.contexts
  rw [hframe] at hcontexts
  rw [Returns, runIrq, get_bind_apply]
  refine Post.ite (fun _ => ?_) fun _ => hcontexts
  cases k.irqHandle line with
  | none => exact hcontexts
  | timerTick =>
    refine Returns.of_noFault timerTick_does.noFault fun k' htick => ?_
    have hticked := h.tick htick
    rwa [hframe] at hticked
  | irqCallback =>
    refine (notify_running h.pid_ne_zero).mono (fun _ _ hr => hcontexts.running hr) ?_
    exact fun _ _ hr he => Or.inr (hcontexts.toPaused.running (hr he))

/-- The state in which a handler starts. -/
def Kernel.entered (k : Kernel) (frame : IntFrame) : Kernel := { k with frame }

/-- The events in question; the interrupted program is never at address zero. -/
def Event.plain : Event → Bool
  | .irq frame _ => frame.eip ≠ 0
  | .syscall frame _ => frame.eip ≠ 0 ∧ (Syscall.decode frame).any Syscall.plain
  | _ => false

/-- The registers in which the thread that is interrupted is to go on. -/
def Kernel.leaving (k : Kernel) : Event → IntFrame
  | .irq frame _ => frame
  | .syscall frame input =>
      match Syscall.decode frame with
      | some call => { frame with eax := call.result input (k.entered frame) }
      | none => frame
  | _ => k.frame

theorem Contexts.serving (h : Contexts saved k) (hf : f.eip ≠ 0) :
    Serving saved k.activeThread f (k.entered f) :=
  ⟨⟨h.unlocked, h.live, h.others, h.dir⟩, rfl, rfl, hf⟩

theorem Contexts.step {ev : Event} (h : Contexts saved k) (hev : ev.plain = true)
    (hstep : k.step ev = some k') :
    Contexts (Function.update saved k.activeThread (some (k.leaving ev))) k' := by
  refine recover_contexts ?_ hstep
  cases ev with
  | irq frame line => exact (h.serving (of_decide_eq_true hev)).irq rfl line.toNat
  | syscall frame input =>
    obtain ⟨hf, hcall⟩ := of_decide_eq_true hev
    obtain ⟨call, hdecode, hplain⟩ := (Option.any_eq_true _ _).mp hcall
    have hhandle : (Event.syscall frame input).handle k = call.run input (k.entered frame) := by
      simp only [Event.handle, enter, modify_bind_apply, hdecode]
      rfl
    have hleaving : k.leaving (.syscall frame input) =
        { frame with eax := call.result input (k.entered frame) } := by
      simp only [Kernel.leaving, hdecode]
    rw [hhandle, hleaving]
    exact Syscall.returns hplain (h.serving hf)
  | _ => cases hev

/-! ## Boot -/

/-- No thread has run yet, and each belongs to the process whose control block it is in. -/
structure Fresh (k : Kernel) : Prop where
  unlocked : k.locked = false
  eip : ∀ u, k.live u = true → (k.thread u).task.frame.eip = 0
  owner : ∀ u, k.live u = true → (k.thread u).owner = u.pid

theorem Fresh.kept (h : Fresh k) (hk : Kept k k') : Fresh k' where
  unlocked := hk.locked.trans h.unlocked
  eip u hu := by
    rw [hk.task]
    exact h.eip u (hk.live u hu)
  owner u hu := (hk.owner u).trans (h.owner u (hk.live u hu))

theorem Fresh.onlyMemory (h : Fresh k) (hm : OnlyMemory k k') : Fresh k' := by
  rw [hm.eq]
  exact ⟨h.unlocked, h.eip, h.owner⟩

theorem processNew_sameTask (ppid : Pid) (entry : Word) :
    Ensures SameTask (processNew ppid entry) := by
  have hmodify : ∀ {f : Kernel → Kernel}, (∀ k, SameTask k (f k)) →
      Ensures SameTask (modify f : KernelM PUnit) := fun h => .modify h
  refine .bind .get fun _ => .bind (.orThrow _ _) fun _ => .bind (.ite (.throw _) (.pure _)) fun _ =>
    .bind (hmodify fun _ => ⟨rfl, rfl⟩) fun _ => .bind .get fun _ => ?_
  refine .bind (sameTask_of_still (virtualAlloc_does _ _ _).still) fun _ => .bind .get fun _ =>
    .bind (hmodify fun _ => ⟨rfl, rfl⟩) fun _ => .bind (hmodify fun _ => ⟨rfl, rfl⟩) fun _ => ?_
  exact .bind .get fun _ => .bind (sameTask_of_still (liftVm_does pagingDirCreate_does).still) fun _ =>
    .bind (hmodify fun _ => ⟨rfl, rfl⟩) fun _ => .pure _

theorem Fresh.processNew {ppid pid : Pid} {entry : Word} (h : Fresh k)
    (hnew : Horizon.processNew ppid entry k = .ok pid k') : Fresh k' := by
  have hproc := processNew_eq_ok hnew
  have hother : ∀ u, k'.live u = true → u.pid ≠ pid ∧ k.live u = true := by
    intro u hu
    have hpid : u.pid ≠ pid := fun hpid => by
      rw [hproc.not_live hpid] at hu
      cases hu
    exact ⟨hpid, hproc.toElsewhere.live hpid ▸ hu⟩
  refine ⟨((processNew_sameTask _ _).ok hnew).locked.trans h.unlocked, fun u hu => ?_,
    fun u hu => ?_⟩
  · rw [Kernel.thread, hproc.block _ (hother u hu).1]
    exact h.eip u (hother u hu).2
  · rw [Kernel.thread, hproc.block _ (hother u hu).1]
    exact h.owner u (hother u hu).2

/-- The first thread of a process, which cannot damage another one. -/
theorem Fresh.threadNew {pid : Pid} {entry : Word} (h : Fresh k)
    (hempty : ∀ u : ThreadUid, u.pid = pid → k.live u = false)
    (hnew : Horizon.threadNew pid entry k = .ok uid k') : Fresh k' := by
  obtain ⟨index, hindex, rfl, hproc, -, hmem⟩ := threadNew_eq_ok hnew
  generalize hb : (k.blocks pid).addThread pid index entry = b at hmem
  have hall : ∀ u, (k.setBlock pid b).live u = true →
      ((k.setBlock pid b).thread u).task.frame.eip = 0 ∧
        ((k.setBlock pid b).thread u).owner = u.pid := by
    intro u hu
    by_cases hpid : u.pid = pid
    · have hfree := hempty u hpid
      rw [Kernel.live, hpid, hproc, Bool.true_and] at hfree
      rw [Kernel.live, Kernel.blocks_setBlock, if_pos hpid, ← hb, Block.live_addThread hindex,
        hfree, Bool.or_false, Bool.and_eq_true, decide_eq_true_eq] at hu
      rw [Kernel.thread, Kernel.blocks_setBlock, if_pos hpid, hu.2, ← hb,
        Block.threads_addThread_self]
      exact ⟨rfl, hpid.symm⟩
    · have hlive : k.live u = true := (elsewhere_setBlock.live hpid).symm.trans hu
      rw [Kernel.thread, Kernel.blocks_setBlock, if_neg hpid]
      exact ⟨h.eip u hlive, h.owner u hlive⟩
  have hset : Fresh (k.setBlock pid b) :=
    ⟨h.unlocked, fun u hu => (hall u hu).1, fun u hu => (hall u hu).2⟩
  exact hset.onlyMemory hmem

/-- Starting a module adds one thread, which has not run, and changes no other. -/
theorem Fresh.startModule {binary : ElfBinary} (h : Fresh k)
    (hstart : Horizon.startModule binary k = .ok () k') : Fresh k' := by
  simp only [Horizon.startModule, bind_eq_ok] at hstart
  obtain ⟨pid, k₁, hnew, _, k₂, hsections, uid, k₃, hthread, hadd⟩ := hstart
  have hmem : OnlyMemory k₁ k₂ := (Ensures.forM (loadSection_onlyMemory pid) _).ok hsections
  have hempty : ∀ u : ThreadUid, u.pid = pid → k₂.live u = false := by
    intro u hu
    rw [hmem.eq]
    exact (processNew_eq_ok hnew).not_live hu
  have hk₃ : Fresh k₃ := ((h.processNew hnew).onlyMemory hmem).threadNew hempty hthread
  exact hk₃.kept ((schedulerAdd_does uid).kept.ok hadd)

theorem Fresh.schedulerStart (h : Fresh k) (hstart : Horizon.schedulerStart k = .ok () k') :
    Contexts (fun _ => none) k' := by
  simp only [Horizon.schedulerStart, get_bind_apply, bind_eq_ok, modify_bind_apply, dassert_eq_ok,
    derefProcess_eq_ok, derefThread_eq_ok, pagingPasLoad, modify_eq_ok] at hstart
  obtain ⟨_, _, ⟨-, rfl⟩, _, _, ⟨-, rfl, rfl⟩, _, _, ⟨hlive, rfl, rfl⟩, rfl⟩ := hstart
  refine ⟨⟨h.unlocked, hlive, fun u hu _ => h.eip u hu, ?_⟩, rfl, rfl⟩
  show _ = (k.blocks (k.thread k.activeThread).owner).process.addrSpace
  rw [h.owner _ hlive]

theorem Booted.contexts (h : Booted k) : Contexts (fun _ => none) k := by
  obtain ⟨vm, modules, h⟩ := h
  simp only [kmain, bind_eq_ok] at h
  obtain ⟨_, k₁, hinit, _, k₂, hmodules, hstart⟩ := h
  obtain ⟨hproc, hk₁⟩ := processInit_eq_ok hinit
  have hnone : ∀ u, k₁.live u ≠ true := fun u hu =>
    Bool.false_ne_true ((Kernel.live_of_no_process hproc).symm.trans hu)
  have hfresh : Fresh k₁ := by
    refine ⟨?_, fun u hu => absurd hu (hnone u), fun u hu => absurd hu (hnone u)⟩
    rw [hk₁]
    rfl
  have hk₂ : Fresh k₂ := forM_invariant (fun _ _ _ h hs => hs.startModule h) hmodules hfresh
  exact hk₂.schedulerStart hstart

/-! ## Runs -/

end Horizon
