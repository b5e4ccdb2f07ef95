import Horizon.System.Message

/-!
# Horizon — services (`core/ipc/service.c`, `core/system/service`)

A thread registers its port under a service number; the numbers below `SVC_IMAX` are
interrupt lines. Looking up a dead owner masks its line.
-/

namespace Horizon

open StateError

/-- `SVC_IMAX`. -/
def svcImax : Nat := 16

/-- `SVC_PROCMGR`. -/
def svcProcmgr : Nat := 17

/-- `SVCMAX`. -/
def svcMax : Nat := 20

/-- Set the callback of an interrupt line and mask or unmask it. -/
def irqSet (line : Nat) (handle : IrqHandle) (enabled : Bool) : KernelM Unit :=
  modify fun k =>
    { k with
      irqHandle := Function.update k.irqHandle line handle
      irqEnabled := Function.update k.irqEnabled line enabled }

/-- Get the port of the thread that registered for the given service, zero if it is gone. -/
def serviceGet (svc : Nat) : KernelM IpcPort := do
  dassert (svc < svcMax)
  let k ← get
  let port := k.serviceIds svc
  if k.portToUid port 0 ≠ 0 then return port
  if svc < svcImax then irqSet svc .none false
  return {}

/-- Associate a thread with a service. -/
def serviceRegister (svc : Nat) (uid : ThreadUid) : KernelM Unit := do
  dassert (svc < svcMax)
  dassert ((← serviceGet svc) = {})
  let _ ← dassertSome ((← get).threadGet uid)
  let port ← portFromUid uid
  modify fun k => { k with serviceIds := Function.update k.serviceIds svc port }
  if svc < svcImax then irqSet svc .irqCallback true

/-- Send a kernel message to the relevant thread upon an IRQ. -/
def irqCallback (irq : Nat) : KernelM Unit := do
  let port ← serviceGet irq
  if port = {} then return
  internalKsend port (BitVec.ofNat 32 irq) noArgs

/-- Tell the process manager, if there is one, which process died. -/
def notifyProcmgr (pid : Word) : KernelM Unit := do
  let port ← serviceGet svcProcmgr
  if port = {} then return
  internalKsend port (BitVec.ofNat 32 svcProcmgr) #v[pid, 0, 0]

def syscallSvcown (svc : Word) : KernelM Unit := do
  if svcMax ≤ svc.toNat then return ← syscallReturnSet ePARAM
  if (← serviceGet svc.toNat) ≠ {} then return ← syscallReturnSet eNOTAVAIL
  let caller := (← get).schedulerCurr
  -- Only servers and drivers can register as services.
  if (← derefProcess caller.pid).priv < privServer then return ← syscallReturnSet ePRIV
  serviceRegister svc.toNat caller
  syscallReturnSet eNONE

def syscallSvcid (svc : Word) : KernelM Unit := do
  if svcMax ≤ svc.toNat then return ← syscallReturnSet 0
  let port ← serviceGet svc.toNat
  syscallReturnSet port.raw

end Horizon
