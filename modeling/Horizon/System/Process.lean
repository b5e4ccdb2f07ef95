import Horizon.Ipc.Service

/-!
# Horizon — process system calls and exceptions (`core/system/process`)

The register arguments arrive in the widths of the source: a `pid_t` has 16 bits, a `tid_t`
has 8.
-/

namespace Horizon

open StateError

/-- `process_get` on a 16-bit PID: the process and its index. -/
def Kernel.processFind (k : Kernel) (pid : BitVec 16) : Option Process :=
  if pid.toNat < 1024 then k.processGet (pid.setWidth 10) else none

def syscallSpawn : KernelM Unit := do
  let owner := (← get).schedulerCurr.pid
  let pid ← processNew owner 0
  syscallReturnSet (pid.setWidth 32)

def syscallLaunch (pid : BitVec 16) (entry : Word) : KernelM Unit := do
  let owner := (← get).processGet (← get).schedulerCurr.pid
  let found := (← get).processFind pid
  if found.isNone then return ← syscallReturnSet eNOTAVAIL
  let target ← orThrow .nullDeref found
  -- The target process must not have any threads running.
  if 0 < target.threadInfo.count then return ← syscallReturnSet eINVALID
  -- It can only be launched by its parent or a server/driver.
  let owner ← orThrow .nullDeref owner
  if target.parent ≠ owner.pid ∧ owner.priv ≤ privNone then return ← syscallReturnSet ePRIV
  modifyProcess (pid.setWidth 10) fun p => { p with entry := entry }
  let uid ← threadNew (pid.setWidth 10) 0
  schedulerAdd uid
  syscallReturnSet eNONE

def syscallDispatch (entry stack : Word) : KernelM Unit := do
  let owner := (← get).schedulerCurr.pid
  let uid ← threadNew owner entry
  let _ ← derefThread uid
  modifyThread uid fun t => { t with task := { t.task with stack := stack } }
  schedulerAdd uid
  syscallReturnSet (uid.tid.setWidth 32)

/-- Leave the kernel: the running thread is dead if the scheduler is locked. -/
def unlockOrReturn : KernelM Unit := do
  if (← get).schedulerCurr.pid = 0 then schedulerUnlock
  else syscallReturnSet eNONE

/-- The thread that is destroyed is the caller, whichever was named. -/
def syscallRelease (tid : BitVec 8) : KernelM Unit := do
  let caller := (← get).schedulerCurr
  let tid := if tid = 0 then caller.tid.setWidth 8 else tid
  -- Cannot release the main thread (use kill instead).
  if tid = 0 then return ← syscallReturnSet eINVALID
  let target : ThreadUid := { pid := caller.pid, tid := tid.setWidth 6 }
  if (← get).live target = false then return ← syscallReturnSet eNOTAVAIL
  runIf (target.tid = caller.tid) schedulerLock
  threadKill caller
  unlockOrReturn

/-- Take all threads of a process out of the scheduler and free it. -/
def purgeAndKill (pid : Pid) : KernelM Unit := do
  schedulerPurge pid
  processKill pid

/-- Resolve `PID_SELF`. -/
def killTarget (owner : Option Process) (pid : BitVec 16) : KernelM (BitVec 16) := do
  if pid ≠ 0 then return pid
  let owner ← orThrow .nullDeref owner
  return owner.pid.setWidth 16

def syscallKill (pid : BitVec 16) : KernelM Unit := do
  let owner := (← get).processGet (← get).schedulerCurr.pid
  let pid ← killTarget owner pid
  let found := (← get).processFind pid
  if found.isNone then return ← syscallReturnSet eNOTAVAIL
  let target ← orThrow .nullDeref found
  let owner ← orThrow .nullDeref owner
  -- The caller must have an equal or greater priv than the target.
  if owner.priv < target.priv then return ← syscallReturnSet ePRIV
  -- The currently running thread may be contained in this process.
  runIf (target.pid = owner.pid) schedulerLock
  purgeAndKill target.pid
  unlockOrReturn
  notifyProcmgr (pid.setWidth 32)

def tkillTarget (uid : ThreadUid) : KernelM Unit := do
  if uid.tid = 0 then purgeAndKill uid.pid
  else
    schedulerRemove uid
    threadKill uid

/-- Kill a thread, or its whole process if it is the main thread. -/
def internalTkill (uid : ThreadUid) : KernelM Unit := do
  runIf ((← get).schedulerCurr.pid = uid.pid) schedulerLock
  tkillTarget uid
  unlockIfLocked

/-- What both exception handlers do with the thread that was running. -/
def killRunning : KernelM Unit := do
  let target := (← get).schedulerCurr
  internalTkill target
  -- Only a thread was killed, not the entire process.
  if target.tid ≠ 0 then return
  notifyProcmgr (target.pid.setWidth 32)

def exceptionUserfault : KernelM Unit := killRunning

def exceptionPagefault : KernelM Unit := killRunning

end Horizon
