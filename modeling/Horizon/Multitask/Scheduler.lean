import Horizon.Multitask.Process

/-!
# Horizon — the scheduler (`core/multitask/scheduler.c`, `arch/i586/sw/task.c`)

Runnable threads form a doubly linked ring through `sched_info`, with `active_thread` the
running one. Records are updated one field write at a time, in the order of the source, so
that neighbours that happen to be the same thread behave as they do there.
-/

namespace Horizon

open StateError

/-- `SCHEDULER_TIMESLICE`. -/
def schedulerTimeslice : Word := 5

def modifySched (uid : ThreadUid) (f : SchedInfo → SchedInfo) : KernelM Unit :=
  modifyThread uid fun t => { t with schedInfo := f t.schedInfo }

def setActive (uid : ThreadUid) : KernelM Unit := modify fun k => { k with activeThread := uid }

/-- Load a page directory into `CR3`. -/
def pagingPasLoad (dir : Frame) : KernelM Unit :=
  modify fun k => { k with vm := { k.vm with cr3 := dir } }

/-- Save the current state into a task structure. -/
def taskPreserve (uid : ThreadUid) : KernelM Unit := do
  let frame := (← get).frame
  modifyThread uid fun t => { t with task := { t.task with frame := frame } }

/-- Switch to another task during an interrupt. -/
def taskSwitch (curr : Option ThreadUid) (next : ThreadUid) : KernelM Unit := do
  match curr with
  | some uid => taskPreserve uid
  | none => pure ()
  let task := ((← get).thread next).task
  if task.frame.eip = 0 then
    -- This is a new task: set up the starting values.
    modify fun k => { k with frame := { k.frame with eip := task.entry, userEsp := task.stack } }
  else
    modify fun k => { k with frame := task.frame }

/-- Link a thread that has just become runnable into the ring, behind all the others. -/
def ringInsert (uid : ThreadUid) : KernelM Unit := do
  let active := (← get).activeThread
  if active.pid = 0 then
    modifySched uid fun s => { s with next := uid, prev := uid }
    setActive uid
  else
    let curr ← derefThread active
    let prev := curr.schedInfo.prev
    let _ ← derefThread prev
    modifySched uid fun s => { s with next := active, prev := prev }
    modifySched active fun s => { s with prev := uid }
    modifySched prev fun s => { s with next := uid }

/-- Add a thread to the scheduler queue. -/
def schedulerAdd (uid : ThreadUid) : KernelM Unit := do
  let target ← dassertSome ((← get).threadGet uid)
  dassert (target.state ≠ .active)
  modifyThread uid fun t =>
    { t with state := .active, schedInfo := { t.schedInfo with timeslice := schedulerTimeslice } }
  ringInsert uid

/-- Unlink a thread from the ring. -/
def ringRemove (uid : ThreadUid) (sched : SchedInfo) : KernelM Unit := do
  if sched.next = uid then setActive 0
  else
    runIf ((← get).activeThread = uid) (setActive sched.next)
    let _ ← derefThread sched.next
    let _ ← derefThread sched.prev
    modifySched sched.next fun s => { s with prev := sched.prev }
    modifySched sched.prev fun s => { s with next := sched.next }

/-- Remove a thread from the scheduler queue. -/
def schedulerRemove (uid : ThreadUid) : KernelM Unit := do
  let target ← dassertSome ((← get).threadGet uid)
  dassert (target.state = .active)
  -- Current thread allowed only if locked.
  let k ← get
  dassert (uid ≠ k.activeThread ∨ k.locked = true)
  ringRemove uid target.schedInfo
  modifyThread uid fun t => { t with state := .old }

/-- The loop of `scheduler_purge` over the thread slots. -/
def purgeThreads (pid : Pid) : List Tid → KernelM Unit
  | [] => return
  | tid :: rest => do
      runIf (((← get).blocks pid).live tid) do
        let target ← derefThread { pid, tid }
        runIf (target.state = .active) (schedulerRemove { pid, tid })
      purgeThreads pid rest

/-- Remove all threads of a given process from their queues. -/
def schedulerPurge (pid : Pid) : KernelM Unit := do
  let _ ← dassertSome ((← get).processGet pid)
  purgeThreads pid allTids

/-- Switch to the context of the next thread. -/
def schedulerNext : KernelM Unit := do
  let active := (← get).activeThread
  let curr ← derefThread active
  modifySched active fun s => { s with timeslice := schedulerTimeslice }
  -- No need to do a task switch if the current thread is the only one in queue.
  if active = curr.schedInfo.next then return
  setActive curr.schedInfo.next
  let next ← dassertSome ((← get).threadGet curr.schedInfo.next)
  runIf (curr.owner ≠ next.owner) do
    let proc ← derefProcess next.owner
    pagingPasLoad proc.addrSpace
  taskSwitch (some active) curr.schedInfo.next

/-- Enable a no-thread state during a context switch. -/
def schedulerLock : KernelM Unit := do
  modify fun k => { k with locked := true }
  let active := (← get).activeThread
  let _ ← derefThread active
  taskPreserve active

/-- Re-enable the scheduler before returning from a context switch. -/
def schedulerUnlock : KernelM Unit := do
  let active := (← get).activeThread
  dassert (active ≠ 0)
  modify fun k => { k with locked := false }
  let curr ← derefThread active
  let proc ← derefProcess curr.owner
  pagingPasLoad proc.addrSpace
  taskSwitch none active

/-- `if (!(scheduler_curr().pid)) scheduler_unlock();` -/
def unlockIfLocked : KernelM Unit := do
  if (← get).schedulerCurr.pid = 0 then schedulerUnlock

/-- Update the timeslice of the running thread and possibly switch. -/
def timerTick : KernelM Unit := do
  let active := (← get).activeThread
  let curr ← dassertSome ((← get).threadGet active)
  modifySched active fun s => { s with timeslice := s.timeslice - 1 }
  if curr.schedInfo.timeslice - 1 = 0 then schedulerNext

/-- Initialize the scheduler and switch to user mode with the first thread. -/
def schedulerStart : KernelM Unit := do
  let active := (← get).activeThread
  dassert (active ≠ 0)
  -- `arch_timer_init` installs the tick on the PIT's line.
  modify fun k =>
    { k with
      irqHandle := Function.update k.irqHandle 0 .timerTick
      irqEnabled := Function.update k.irqEnabled 0 true }
  let proc ← derefProcess active.pid
  pagingPasLoad proc.addrSpace
  let thread ← derefThread active
  modify fun k =>
    { k with frame := { k.frame with eip := thread.task.entry, userEsp := thread.task.stack } }

/-! ## A task switch, as a change of state -/

namespace Kernel

/-- The registers are saved in the control block. -/
def preserve (k : Kernel) (uid : ThreadUid) : Kernel :=
  k.setThread uid { k.thread uid with task := { (k.thread uid).task with frame := k.frame } }

/-- The frame in which a thread continues, which is its first one if it has not run yet. -/
def resumeFrame (k : Kernel) (uid : ThreadUid) : IntFrame :=
  if (k.thread uid).task.frame.eip = 0 then
    { k.frame with eip := (k.thread uid).task.entry, userEsp := (k.thread uid).task.stack }
  else (k.thread uid).task.frame

def resume (k : Kernel) (uid : ThreadUid) : Kernel := { k with frame := k.resumeFrame uid }

end Kernel

theorem taskSwitch_none (k : Kernel) (next : ThreadUid) :
    taskSwitch none next k = .ok () (k.resume next) := by
  unfold Kernel.resume Kernel.resumeFrame
  by_cases h : (k.thread next).task.frame.eip = 0
  · simp only [taskSwitch, get_bind_apply, h, if_true]
    rfl
  · simp only [taskSwitch, get_bind_apply, h, if_false]
    rfl

theorem taskSwitch_some (k : Kernel) (curr next : ThreadUid) :
    taskSwitch (some curr) next k = .ok () ((k.preserve curr).resume next) :=
  taskSwitch_none (k.preserve curr) next

end Horizon
