import Horizon.State

/-!
# Horizon — IPC ports (`core/ipc/port.c`)

A port names the wildcard or the kernel, a local thread (no PID, no versions), the main
thread of a process (a bare PID), or one exact thread incarnation.
-/

namespace Horizon

/-- A port without version info: a generic PID or a local TID. -/
def IpcPort.unversioned (port : IpcPort) : Bool := port.pvn = 0 ∧ port.tvn = 0

/-- The port of a thread, read off the two control blocks. -/
def portOf (process : Process) (thread : Thread) : IpcPort :=
  { pid := process.pid, pvn := process.version, tid := thread.tid, tvn := thread.version }

/-- Create a formatted port from the given process/thread identifier. -/
def portFromUid (uid : ThreadUid) : KernelM IpcPort := do
  let k ← get
  let process ← dassertSome (k.processGet uid.pid)
  let thread ← dassertSome (k.threadGet uid)
  return portOf process thread

namespace Kernel

/-- The port of a live thread. -/
def portOfUid (k : Kernel) (uid : ThreadUid) : IpcPort :=
  portOf (k.blocks uid.pid).process (k.thread uid)

/-- Get the process and thread ID represented by the given port, zero if there is none. -/
def portToUid (k : Kernel) (port : IpcPort) (parent : Pid) : ThreadUid :=
  -- First check for global values.
  if port = .any ∨ port = .kernel then { pid := 1, tid := port.tid }
  else if port.unversioned then
    if port.pid = 0 then { pid := parent, tid := port.tid }
    -- The TID is always set to the main thread for a generic PID.
    else { pid := port.pid, tid := 0 }
  else
    match k.threadGet { pid := port.pid, tid := port.tid } with
    | none => 0
    | some thread =>
        if (k.blocks port.pid).process.version ≠ port.pvn ∨ thread.version ≠ port.tvn then 0
        else { pid := port.pid, tid := port.tid }

end Kernel

/-- Test if two ports represent equivalent destinations. -/
def portCompare (port1 port2 : IpcPort) : Bool :=
  if port1 = .any ∨ port2 = .any then true
  -- If one port lacks version info, only test the PID/TID.
  else if port1.unversioned ∨ port2.unversioned then
    port1.pid = port2.pid ∧ port1.tid = port2.tid
  else port1 = port2

theorem portFromUid_eq_ok {uid : ThreadUid} {k k' : Kernel} {port : IpcPort} :
    portFromUid uid k = .ok port k' ↔
      k.live uid = true ∧ port = k.portOfUid uid ∧ k = k' := by
  simp only [portFromUid, StateError.get_bind_apply, StateError.bind_eq_ok,
    dassertSome_threadGet_eq_ok, StateError.pure_eq_ok]
  simp only [dassertSome, StateError.orThrow_eq_ok, Kernel.processGet_eq_some]
  constructor
  · rintro ⟨_, _, ⟨⟨-, rfl⟩, rfl⟩, _, _, ⟨hlive, rfl, rfl⟩, rfl, rfl⟩
    exact ⟨hlive, rfl, rfl⟩
  · rintro ⟨hlive, rfl, rfl⟩
    exact ⟨_, k, ⟨⟨Kernel.liveProcess_of_live hlive, rfl⟩, rfl⟩, _, k, ⟨hlive, rfl, rfl⟩, rfl, rfl⟩

end Horizon
