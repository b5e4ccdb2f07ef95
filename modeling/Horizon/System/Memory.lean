import Horizon.Ipc.Message
import Horizon.Multitask.Scheduler

/-!
# Horizon — memory system calls (`core/system/memory`)

`struct shm` has 16 bytes: the port at offset 0, the address at 4, the size at 8 and the
protection byte at 12.
-/

namespace Horizon

open StateError

def pageAligned (addr : Word) : Bool := addrAlign addr archPgsize = addr

def syscallVmap (dest size : Word) : KernelM Unit := do
  if kernelVirtBase < dest + size then return ← syscallReturnSet eADDR
  if size = 0 then return ← syscallReturnSet eSIZE
  if !pageAligned dest then return ← syscallReturnSet eALIGN
  if size % archPgsize ≠ 0 then return ← syscallReturnSet eSIZE
  -- Make sure there are no overlaps with existing memory.
  let owner ← derefProcess (← get).schedulerCurr.pid
  if (← virtualIsMapped owner.pid dest size) ≠ 0 then return ← syscallReturnSet eNOTAVAIL
  virtualAlloc owner.pid dest size
  syscallReturnSet dest

def syscallPmap (dest src size : Word) : KernelM Unit := do
  if kernelVirtBase < dest + size then return ← syscallReturnSet eADDR
  if size = 0 then return ← syscallReturnSet eSIZE
  if !pageAligned dest then return ← syscallReturnSet eALIGN
  if !pageAligned src then return ← syscallReturnSet eALIGN
  if size % archPgsize ≠ 0 then return ← syscallReturnSet eSIZE
  -- Only drivers can map physical memory.
  let owner ← derefProcess (← get).schedulerCurr.pid
  if owner.priv ≠ privDriver then return ← syscallReturnSet ePRIV
  if (← virtualIsMapped owner.pid dest size) ≠ 0 then return ← syscallReturnSet eNOTAVAIL
  virtualMap owner.pid dest src size
  syscallReturnSet dest

def syscallUnmap (addr size : Word) : KernelM Unit := do
  if kernelVirtBase < addr + size then return ← syscallReturnSet eADDR
  if size = 0 then return ← syscallReturnSet eSIZE
  if !pageAligned addr then return ← syscallReturnSet eALIGN
  if size % archPgsize ≠ 0 then return ← syscallReturnSet eSIZE
  -- The entire target region must be mapped in.
  let owner ← derefProcess (← get).schedulerCurr.pid
  if (← virtualIsMapped owner.pid addr size) ≠ 1 then return ← syscallReturnSet eNOTAVAIL
  virtualUnmap owner.pid addr size
  syscallReturnSet eNONE

/-- `sizeof(struct shm)`. -/
def shmSize : Word := 16

/-- Read a `struct shm` from user memory. -/
def fetchShm (info : Word) : KernelM Shm := do
  let dest ← userWord info
  let addr ← userWord (info + 4)
  let size ← userWord (info + 8)
  let prot ← userByte (info + 12)
  return { dest := IpcPort.ofRaw dest, addr, size, prot }

/-- Move memory into another process. -/
def syscallGrant (info dest : Word) : KernelM Unit := do
  let caller := (← get).schedulerCurr
  if (← virtualIsMapped caller.pid info shmSize) ≠ 1 then return ← syscallReturnSet ePARAM
  let shm ← fetchShm info
  if shm.size = 0 then return ← syscallReturnSet eSIZE
  let target := (← get).portToUid shm.dest caller.pid
  if target = 0 then return ← syscallReturnSet eINVALID
  let found := (← get).processGet target.pid
  if found.isNone then return ← syscallReturnSet eNOTAVAIL
  let target ← orThrow .nullDeref found
  -- Only the parent PID or a higher priv can grant memory.
  let owner ← derefProcess caller.pid
  if owner.priv ≤ target.priv ∧ target.parent ≠ owner.pid then
    return ← syscallReturnSet ePRIV
  if !pageAligned shm.addr then return ← syscallReturnSet eALIGN
  if !pageAligned dest then return ← syscallReturnSet eALIGN
  if shm.size % archPgsize ≠ 0 then return ← syscallReturnSet eSIZE
  -- The space must exist in the caller, and be free in the target.
  if (← virtualIsMapped owner.pid shm.addr shm.size) ≠ 1 then return ← syscallReturnSet eADDR
  if (← virtualIsMapped target.pid dest shm.size) ≠ 0 then return ← syscallReturnSet eNORES
  virtualShare target.pid owner.pid dest shm.addr shm.size shm.prot
  virtualUnmap owner.pid shm.addr shm.size
  syscallReturnSet eNONE

/-- Offer memory to another process. -/
def syscallShare (info : Word) : KernelM Unit := do
  let caller := (← get).schedulerCurr
  if (← virtualIsMapped caller.pid info shmSize) ≠ 1 then return ← syscallReturnSet ePARAM
  let shm ← fetchShm info
  if shm.size = 0 then return ← syscallReturnSet eSIZE
  let target := (← get).portToUid shm.dest caller.pid
  if target = 0 then return ← syscallReturnSet eINVALID
  -- If a specific destination is given, the process must exist.
  if ((← get).processGet target.pid).isNone ∧ ¬(target.pid = 1 ∧ target.tid = 1) then
    return ← syscallReturnSet eNOTAVAIL
  if !pageAligned shm.addr then return ← syscallReturnSet eALIGN
  if shm.addr % archPgsize ≠ 0 then return ← syscallReturnSet eSIZE
  let _ ← derefThread caller
  modifyThread caller fun t => { t with syscallInfo := { t.syscallInfo with shmOffer := shm } }
  -- The id of the offer is the thread.
  syscallReturnSet (caller.raw.setWidth 32)

/-- Map memory another thread has offered. -/
def syscallAccept (sid dest size : Word) : KernelM Unit := do
  if size = 0 then return ← syscallReturnSet eSIZE
  let caller := (← get).schedulerCurr
  let target := ThreadUid.ofRaw (sid.setWidth 16)
  if (← get).live target = false then return ← syscallReturnSet eNOTAVAIL
  let shm := ((← get).thread target).syscallInfo.shmOffer
  -- Make sure the caller is allowed to accept.
  if !portCompare shm.dest (← portFromUid caller) then return ← syscallReturnSet ePRIV
  if !pageAligned dest then return ← syscallReturnSet eALIGN
  if size % archPgsize ≠ 0 then return ← syscallReturnSet eSIZE
  if (← virtualIsMapped caller.pid dest size) ≠ 0 then return ← syscallReturnSet eADDR
  virtualShare caller.pid target.pid dest shm.addr shm.size shm.prot
  syscallReturnSet shm.size

end Horizon
