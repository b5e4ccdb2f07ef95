import Horizon.Lib.Generation
import Horizon.Ipc.Service

/-!
# Horizon — who exists, and under which name

The kernel without memory, messages and scheduling: the processes and threads that exist, the
version counters of their slots, the ports registered for services and the interrupt lines.

A slot is handed out with the next version of its counter. The counters of the process slots
are never reset; those of the thread slots live in the control block of the process and start
again with it. So a port names its thread by two generations, of the process slot and of the
thread slot, and `Registry.resolve` checks both.

A new thread clears what lies behind its own control block in the same page, other control
blocks included (`wiped`).
-/

namespace Horizon

open StateError

theorem nextVersion_eq (v : BitVec 8) : nextVersion v = v + 1 := by
  apply BitVec.eq_of_toNat_eq
  rw [nextVersion, BitVec.toNat_ofNat, BitVec.toNat_add, Nat.max_eq_right (Nat.le_add_left 1 _)]
  rfl

/-- The fields of a process control block by which others know the process. -/
structure ProcessRecord where
  pid : Pid
  version : BitVec 8
  parent : Pid
  priv : Nat

/-- The fields of a thread control block by which others know the thread. -/
structure ThreadRecord where
  tid : Tid
  version : BitVec 8

/-- Who is alive under which number and version, and who owns the services and lines. -/
@[ext] structure Registry where
  process : Pid → Option ProcessRecord
  processVersion : Pid → BitVec 8
  thread : ThreadUid → Option ThreadRecord
  threadVersion : ThreadUid → BitVec 8
  service : Nat → IpcPort
  handle : Nat → IrqHandle
  enabled : Nat → Bool

/-- How many bytes of the control block of `v` creating `uid` clears. -/
def wiped (uid v : ThreadUid) : Nat :=
  if v.pid = uid.pid ∧ uid.tid < v.tid then
    pagesEnd (threadOffset uid.tid.toNat) threadSize - threadOffset v.tid.toNat
  else 0

/-- Clear the first `n` bytes. -/
def ThreadRecord.wipe (n : Nat) (t : ThreadRecord) : ThreadRecord where
  tid := if 0 < n then 0 else t.tid
  version := if 1 < n then 0 else t.version

inductive RegistryOp where
  | spawn (pid parent : Pid)
  | create (uid : ThreadUid)
  | exit (uid : ThreadUid)
  | kill (pid : Pid)
  | register (svc : Nat) (uid : ThreadUid)
  /-- The line of a service without an owner is masked. -/
  | mute (line : Nat)

namespace Registry

variable {R R' : Registry} {op : RegistryOp} {ops : List RegistryOp} {pid : Pid}
  {uid : ThreadUid}

/-- The thread a port names, zero if there is none. -/
def resolve (R : Registry) (port : IpcPort) (parent : Pid) : ThreadUid :=
  if port = .any ∨ port = .kernel then { pid := 1, tid := port.tid }
  else if port.unversioned then
    if port.pid = 0 then { pid := parent, tid := port.tid } else { pid := port.pid, tid := 0 }
  else if (R.process port.pid).map ProcessRecord.version = some port.pvn ∧
      (R.thread { pid := port.pid, tid := port.tid }).map ThreadRecord.version = some port.tvn then
    { pid := port.pid, tid := port.tid }
  else 0

/-- The port of a thread. -/
def port (R : Registry) (uid : ThreadUid) : Option IpcPort :=
  (R.process uid.pid).bind fun p => (R.thread uid).map fun t =>
    { pid := p.pid, pvn := p.version, tid := t.tid, tvn := t.version }

/-- The record of a process that is handed the slot `pid`. A parent that is this very slot is
found, with the block that has just been cleared. -/
def newProcess (R : Registry) (pid parent : Pid) : ProcessRecord where
  pid := pid
  version := nextVersion (R.processVersion pid)
  parent := if parent = pid ∨ (R.process parent).isSome then parent else 0
  priv :=
    if parent = pid then privNone
    else ((R.process parent).map ProcessRecord.priv).getD privDriver

/-- The record of a thread that is handed the slot `uid`. -/
def newThread (R : Registry) (uid : ThreadUid) : ThreadRecord where
  tid := uid.tid
  version := nextVersion (R.threadVersion uid)

def apply (R : Registry) : RegistryOp → Registry
  | .spawn pid parent =>
      { R with
        process := fun p => if p = pid then some (R.newProcess pid parent) else R.process p
        processVersion := fun p =>
          if p = pid then nextVersion (R.processVersion pid) else R.processVersion p
        threadVersion := fun u => if u.pid = pid then 0 else R.threadVersion u }
  | .create uid =>
      { R with
        thread := fun v =>
          if v = uid then some (R.newThread uid)
          else (R.thread v).map (ThreadRecord.wipe (wiped uid v))
        threadVersion := fun v =>
          if v = uid then nextVersion (R.threadVersion uid) else R.threadVersion v }
  | .exit uid => { R with thread := fun v => if v = uid then none else R.thread v }
  | .kill pid =>
      { R with
        process := fun p => if p = pid then none else R.process p
        thread := fun u => if u.pid = pid then none else R.thread u }
  | .register svc uid =>
      { R with
        service := fun s => if s = svc then (R.port uid).getD {} else R.service s
        handle := fun n => if n = svc ∧ svc < svcImax then .irqCallback else R.handle n
        enabled := fun n => if n = svc ∧ svc < svcImax then true else R.enabled n }
  | .mute line =>
      { R with
        handle := fun n => if n = line then .none else R.handle n
        enabled := fun n => if n = line then false else R.enabled n }

/-- What the kernel has checked when it does an operation. -/
def Valid (R : Registry) : RegistryOp → Prop
  | .spawn pid _ => R.process pid = none
  | .create uid => (R.process uid.pid).isSome ∧ R.thread uid = none
  | .exit uid => (R.thread uid).isSome
  | .kill pid => (R.process pid).isSome
  | .register svc uid => (R.port uid).isSome ∧ R.resolve (R.service svc) 0 = 0
  | .mute line => line < svcImax ∧ R.resolve (R.service line) 0 = 0

/-- The control blocks of live threads are left alone: no live thread's block lies behind the
new one in its page. -/
def Keeps (R : Registry) : RegistryOp → Prop
  | .create uid => ∀ v t, R.thread v = some t → t.wipe (wiped uid v) = t
  | _ => True

/-- The counter of the slot that is handed out has not been used up. -/
def Fresh (R : Registry) : RegistryOp → Prop
  | .spawn pid _ => R.processVersion pid ≠ 255
  | .create uid => R.threadVersion uid ≠ 255
  | _ => True

/-- `ops` lead from `R` to `R'`, each of them checked, meeting `A` in the state before. -/
abbrev Runs (A : Registry → RegistryOp → Prop) (R : Registry) (ops : List RegistryOp)
    (R' : Registry) : Prop :=
  Steps (fun R op => some (R.apply op)) (fun R op _ => R.Valid op ∧ A R op) R ops R'

/-! ## Processes -/

/-- The processes carry their own names and versions, and a thread has a process. -/
structure Coherent (R : Registry) : Prop where
  pid : ∀ p r, R.process p = some r → r.pid = p
  version : ∀ p r, R.process p = some r → r.version = R.processVersion p
  owner : ∀ u, (R.thread u).isSome → (R.process u.pid).isSome

theorem Coherent.apply (hR : R.Coherent) (hvalid : R.Valid op) : (R.apply op).Coherent := by
  obtain ⟨hpid, hversion, howner⟩ := hR
  cases op with
  | spawn pid parent =>
    refine ⟨fun p r hp => ?_, fun p r hp => ?_, fun u hu => ?_⟩ <;>
      simp only [Registry.apply, newProcess] at * <;> grind
  | create uid =>
    refine ⟨hpid, hversion, fun u hu => ?_⟩
    simp only [Registry.apply, Valid] at *
    grind
  | exit uid =>
    refine ⟨hpid, hversion, fun u hu => ?_⟩
    simp only [Registry.apply] at *
    grind
  | kill pid =>
    refine ⟨fun p r hp => ?_, fun p r hp => ?_, fun u hu => ?_⟩ <;>
      simp only [Registry.apply] at * <;> grind
  | register svc uid => exact ⟨hpid, hversion, howner⟩
  | mute line => exact ⟨hpid, hversion, howner⟩

/-- The threads, too, carry their own names and versions. -/
structure Intact (R : Registry) : Prop extends Coherent R where
  tid : ∀ u t, R.thread u = some t → t.tid = u.tid
  generation : ∀ u t, R.thread u = some t → t.version = R.threadVersion u

theorem thread_create (hkeeps : R.Keeps (.create uid)) (v : ThreadUid) :
    (R.apply (.create uid)).thread v = if v = uid then some (R.newThread uid) else R.thread v := by
  simp only [Registry.apply]
  split
  · rfl
  · cases h : R.thread v with
    | none => rfl
    | some t => rw [Option.map_some, hkeeps v t h]

theorem Intact.apply (hR : R.Intact) (hvalid : R.Valid op) (hkeeps : R.Keeps op) :
    (R.apply op).Intact := by
  refine ⟨hR.toCoherent.apply hvalid, ?_, ?_⟩
  all_goals
    obtain ⟨⟨-, -, howner⟩, htid, hgeneration⟩ := hR
    cases op with
    | create uid =>
      intro u t hu
      rw [thread_create hkeeps] at hu
      simp only [Registry.apply, newThread] at *
      grind
    | _ =>
      simp only [Registry.apply, Valid] at *
      grind

theorem Runs.coherent {A : Registry → RegistryOp → Prop} (hrun : Runs A R ops R')
    (hR : R.Coherent) : R'.Coherent := by
  refine Steps.invariant (fun S op S' hS hstep hguard => ?_) hrun hR
  cases hstep
  exact hS.apply hguard.1

theorem Runs.intact (hrun : Runs Keeps R ops R') (hR : R.Intact) : R'.Intact := by
  refine Steps.invariant (fun S op S' hS hstep hguard => ?_) hrun hR
  cases hstep
  exact hS.apply hguard.1 hguard.2

/-- No version of a live process or thread is zero, which in a port stands for any version. -/
structure Versioned (R : Registry) : Prop where
  process : ∀ p r, R.process p = some r → r.version ≠ 0
  thread : ∀ u t, R.thread u = some t → t.version ≠ 0

theorem nextVersion_ne_zero {v : BitVec 8} : nextVersion v ≠ 0 ↔ v ≠ 255 := by
  rw [nextVersion_eq]
  constructor <;> intro h <;> bv_omega

theorem Versioned.apply (hR : R.Versioned) (hkeeps : R.Keeps op) (hfresh : R.Fresh op) :
    (R.apply op).Versioned := by
  obtain ⟨hprocess, hthread⟩ := hR
  cases op with
  | spawn pid parent =>
    refine ⟨fun p r hp => ?_, hthread⟩
    simp only [Registry.apply] at hp
    split at hp
    · cases hp
      exact nextVersion_ne_zero.mpr hfresh
    · exact hprocess p r hp
  | create uid =>
    refine ⟨hprocess, fun u t hu => ?_⟩
    rw [thread_create hkeeps] at hu
    split at hu
    · cases hu
      exact nextVersion_ne_zero.mpr hfresh
    · exact hthread u t hu
  | exit uid =>
    refine ⟨hprocess, fun u t hu => ?_⟩
    simp only [Registry.apply] at hu
    split at hu
    · cases hu
    · exact hthread u t hu
  | kill pid =>
    refine ⟨fun p r hp => ?_, fun u t hu => ?_⟩
    · simp only [Registry.apply] at hp
      split at hp
      · cases hp
      · exact hprocess p r hp
    · simp only [Registry.apply] at hu
      split at hu
      · cases hu
      · exact hthread u t hu
  | register svc uid => exact ⟨hprocess, hthread⟩
  | mute line => exact ⟨hprocess, hthread⟩

end Registry

/-! ## The slots -/

namespace RegistryOp

/-- Is a process slot handed out? -/
def spawns (p : Pid) : RegistryOp → Bool
  | .spawn pid _ => pid = p
  | _ => false

/-- Is a thread slot handed out? -/
def creates (u : ThreadUid) : RegistryOp → Bool
  | .create uid => uid = u
  | _ => false

/-- Is a process killed? -/
def kills (p : Pid) : RegistryOp → Bool
  | .kill pid => pid = p
  | _ => false

/-- Is a thread killed, alone or with its process? -/
def ends (u : ThreadUid) : RegistryOp → Bool
  | .exit uid => uid = u
  | .kill pid => pid = u.pid
  | _ => false

/-- What an operation does to a slot that `alloc` hands out and `free` frees. -/
def onSlot (alloc free : RegistryOp → Bool) (op : RegistryOp) : List Generation.Op :=
  if alloc op then [.alloc] else if free op then [.free] else []

variable (alloc free : RegistryOp → Bool)

theorem runs_onSlot {s s' : Generation.Slot 8} {op : RegistryOp}
    (halloc : alloc op = true → s.step .alloc = some s')
    (hfree : free op = true → s.step .free = some s')
    (hskip : alloc op = false → free op = false → s' = s) :
    Generation.Runs s (onSlot alloc free op) s' := by
  unfold onSlot
  split
  · next h => exact .one (halloc h)
  · next h =>
    split
    · next h' => exact .one (hfree h')
    · next h' =>
      rw [hskip (Bool.eq_false_iff.mpr h) (Bool.eq_false_iff.mpr h')]
      exact .nil s

theorem count_onSlot (ops : List RegistryOp) :
    (ops.flatMap (onSlot alloc free)).count .alloc = ops.countP alloc := by
  induction ops with
  | nil => rfl
  | cons op ops ih =>
    rw [List.flatMap_cons, List.count_append, ih, List.countP_cons, Nat.add_comm, onSlot]
    split
    · rfl
    · split <;> rfl

theorem free_notMem_onSlot {ops : List RegistryOp} (h : ops.any free = false) :
    .free ∉ ops.flatMap (onSlot alloc free) := by
  rw [List.mem_flatMap]
  rintro ⟨op, hop, hmem⟩
  have hfree : free op = false := by
    rw [List.any_eq_false] at h
    exact Bool.eq_false_iff.mpr (h op hop)
  simp only [onSlot, hfree] at hmem
  split at hmem
  · simp at hmem
  · simp at hmem

end RegistryOp

namespace Registry

open RegistryOp

variable {R R' : Registry} {op : RegistryOp} {ops before after : List RegistryOp} {p : Pid}
  {u : ThreadUid} {A : Registry → RegistryOp → Prop}

def processSlot (R : Registry) (p : Pid) : Generation.Slot 8 :=
  ⟨(R.process p).map ProcessRecord.version, R.processVersion p⟩

def threadSlot (R : Registry) (u : ThreadUid) : Generation.Slot 8 :=
  ⟨(R.thread u).map ThreadRecord.version, R.threadVersion u⟩

theorem Coherent.slot (hR : R.Coherent) (p : Pid) : (R.processSlot p).Coherent := by
  intro v hv
  obtain ⟨r, hr, rfl⟩ := Option.map_eq_some_iff.mp hv
  exact hR.version p r hr

theorem Intact.slot (hR : R.Intact) (u : ThreadUid) : (R.threadSlot u).Coherent := by
  intro v hv
  obtain ⟨t, ht, rfl⟩ := Option.map_eq_some_iff.mp hv
  exact hR.generation u t ht

theorem processSlot_apply (hvalid : R.Valid op) :
    Generation.Runs (R.processSlot p) (onSlot (spawns p) (kills p) op)
      ((R.apply op).processSlot p) := by
  refine runs_onSlot _ _ (fun h => ?_) (fun h => ?_) fun hspawn hkill => ?_
  · cases op with
    | spawn pid parent =>
      obtain rfl : pid = p := of_decide_eq_true h
      have hnone : R.process pid = none := hvalid
      simp [Generation.Slot.step, processSlot, apply, newProcess, hnone, nextVersion_eq]
    | _ => cases h
  · cases op with
    | kill pid =>
      obtain rfl : pid = p := of_decide_eq_true h
      simp [Generation.Slot.step, processSlot, apply]
    | _ => cases h
  · cases op with
    | spawn pid parent =>
      have hne : p ≠ pid := Ne.symm (of_decide_eq_false hspawn)
      simp [processSlot, apply, hne]
    | kill pid =>
      have hne : p ≠ pid := Ne.symm (of_decide_eq_false hkill)
      simp [processSlot, apply, hne]
    | _ => rfl

theorem threadSlot_apply (hvalid : R.Valid op) (hkeeps : R.Keeps op)
    (hspawn : op.spawns u.pid = false) :
    Generation.Runs (R.threadSlot u) (onSlot (creates u) (ends u) op)
      ((R.apply op).threadSlot u) := by
  refine runs_onSlot _ _ (fun h => ?_) (fun h => ?_) fun hcreate hend => ?_
  · cases op with
    | create uid =>
      obtain rfl : uid = u := of_decide_eq_true h
      have hnone : R.thread uid = none := hvalid.2
      simp [Generation.Slot.step, threadSlot, apply, newThread, hnone, nextVersion_eq]
    | _ => cases h
  · cases op with
    | exit uid =>
      obtain rfl : uid = u := of_decide_eq_true h
      simp [Generation.Slot.step, threadSlot, apply]
    | kill pid =>
      obtain rfl : pid = u.pid := of_decide_eq_true h
      simp [Generation.Slot.step, threadSlot, apply]
    | _ => cases h
  · cases op with
    | spawn pid parent =>
      have hne : u.pid ≠ pid := Ne.symm (of_decide_eq_false hspawn)
      simp [threadSlot, apply, hne]
    | create uid =>
      have hne : u ≠ uid := Ne.symm (of_decide_eq_false hcreate)
      rw [threadSlot, thread_create hkeeps, if_neg hne]
      simp [threadSlot, apply, hne]
    | exit uid =>
      have hne : u ≠ uid := Ne.symm (of_decide_eq_false hend)
      simp [threadSlot, apply, hne]
    | kill pid =>
      have hne : u.pid ≠ pid := Ne.symm (of_decide_eq_false hend)
      simp [threadSlot, apply, hne]
    | _ => rfl

/-- A run of the registry is a history of every process slot. -/
theorem Runs.processSlot (hrun : Runs A R ops R') :
    Generation.Runs (R.processSlot p) (ops.flatMap (onSlot (spawns p) (kills p)))
      (R'.processSlot p) := by
  induction hrun with
  | nil R => exact .nil _
  | cons hstep hguard _ ih =>
    cases hstep
    exact (processSlot_apply hguard.1).append ih

/-- It is a history of the thread slots of every process that is not replaced. -/
theorem Runs.threadSlot (hrun : Runs Keeps R ops R') (hspawn : ops.countP (spawns u.pid) = 0) :
    Generation.Runs (R.threadSlot u) (ops.flatMap (onSlot (creates u) (ends u)))
      (R'.threadSlot u) := by
  induction hrun with
  | nil R => exact .nil _
  | @cons R _ R' op ops hstep hguard _ ih =>
    cases hstep
    rw [List.countP_eq_zero] at hspawn ih
    have hop : op.spawns u.pid = false :=
      Bool.eq_false_iff.mpr (hspawn op List.mem_cons_self)
    exact (threadSlot_apply hguard.1 hguard.2 hop).append
      (ih fun o ho => hspawn o (List.mem_cons_of_mem _ ho))

/-! ## Ports -/

theorem resolve_of_versioned {port : IpcPort} (h : port.unversioned = false) (parent : Pid) :
    R.resolve port parent =
      if (R.processSlot port.pid).occupant = some port.pvn ∧
          (R.threadSlot { pid := port.pid, tid := port.tid }).occupant = some port.tvn then
        { pid := port.pid, tid := port.tid }
      else 0 := by
  have hspecial : ¬(port = .any ∨ port = .kernel) := by
    rintro (rfl | rfl)
    · exact absurd h (by decide)
    · exact absurd h (by decide)
  rw [resolve, if_neg hspecial, if_neg (by rw [h]; exact Bool.false_ne_true)]
  rfl

theorem Intact.port_eq (hR : R.Intact) {port : IpcPort} (hport : R.port u = some port) :
    (R.processSlot u.pid).occupant = some (R.processVersion u.pid) ∧
      (R.threadSlot u).occupant = some (R.threadVersion u) ∧
      port = { pid := u.pid, pvn := R.processVersion u.pid, tid := u.tid,
               tvn := R.threadVersion u } := by
  obtain ⟨p, hp, hmap⟩ := Option.bind_eq_some_iff.mp hport
  obtain ⟨t, ht, rfl⟩ := Option.map_eq_some_iff.mp hmap
  rw [processSlot, threadSlot, hp, ht, ← hR.version _ _ hp, ← hR.generation _ _ ht,
    hR.pid _ _ hp, hR.tid _ _ ht]
  exact ⟨rfl, rfl, rfl⟩

theorem kills_of_ends (h : ops.any (ends u) = false) : ops.any (kills u.pid) = false := by
  rw [List.any_eq_false] at h ⊢
  intro op hop hkill
  refine h op hop ?_
  cases op with
  | kill pid => exact hkill
  | _ => cases hkill

/-- While a thread is not killed, both its slots keep their occupants. -/
theorem Runs.slots_eq (hrun : Runs Keeps R ops R') {v w : BitVec 8}
    (hprocess : (R.processSlot u.pid).occupant = some v)
    (hthread : (R.threadSlot u).occupant = some w) (halive : ops.any (ends u) = false) :
    R'.processSlot u.pid = R.processSlot u.pid ∧ R'.threadSlot u = R.threadSlot u := by
  have hkill := free_notMem_onSlot (spawns u.pid) _ (kills_of_ends halive)
  have hnil := hrun.processSlot.eq_nil hprocess hkill
  have hspawn : ops.countP (spawns u.pid) = 0 := by
    rw [← count_onSlot _ (kills u.pid), hnil]
    rfl
  exact ⟨hrun.processSlot.eq_of_occupied hprocess hkill,
    (hrun.threadSlot hspawn).eq_of_occupied hthread (free_notMem_onSlot _ _ halive)⟩

/-- A port names its thread as long as the thread is alive. -/
theorem Runs.resolve_alive (hrun : Runs Keeps R ops R') (hR : R.Intact) {port : IpcPort}
    (hport : R.port u = some port) (hversioned : port.unversioned = false)
    (halive : ops.any (ends u) = false) (parent : Pid) : R'.resolve port parent = u := by
  obtain ⟨hprocess, hthread, rfl⟩ := hR.port_eq hport
  obtain ⟨hp, ht⟩ := hrun.slots_eq hprocess hthread halive
  rw [resolve_of_versioned hversioned, if_pos]
  rw [hp, ht]
  exact ⟨hprocess, hthread⟩

/-- After that it names nobody, until one of the counters has come round. -/
theorem Runs.resolve_ended (hrun : Runs Keeps R (before ++ op :: after) R') (hR : R.Intact)
    {port : IpcPort} (hport : R.port u = some port) (hversioned : port.unversioned = false)
    (halive : before.any (ends u) = false) (hend : op.ends u = true)
    (hprocesses : after.countP (spawns u.pid) < 256)
    (hthreads : after.countP (spawns u.pid) = 0 → after.countP (creates u) < 256)
    (parent : Pid) : R'.resolve port parent = 0 := by
  obtain ⟨hprocess, hthread, rfl⟩ := hR.port_eq hport
  obtain ⟨R₁, hbefore, hrest⟩ := hrun.of_append
  obtain ⟨hp, ht⟩ := Runs.slots_eq hbefore hprocess hthread halive
  have hR' : R'.Intact := hrun.intact hR
  rw [resolve_of_versioned hversioned, if_neg]
  rintro ⟨hp', ht'⟩
  have hspawns : (op :: after).countP (spawns u.pid) = after.countP (spawns u.pid) := by
    refine List.countP_cons_of_neg ?_
    cases op with
    | spawn => cases hend
    | _ => exact Bool.false_ne_true
  by_cases hzero : after.countP (spawns u.pid) = 0
  · -- The process has not been replaced: the thread slot was freed, and tells.
    have hfree : onSlot (creates u) (ends u) op = [.free] := by
      cases op with
      | exit uid => exact if_pos hend
      | kill pid => exact if_pos hend
      | _ => cases hend
    have hslot := Runs.threadSlot hrest (hspawns.trans hzero)
    rw [List.flatMap_cons, hfree, List.singleton_append, ht] at hslot
    cases hslot with
    | cons hstep _ hafter =>
      obtain rfl := Generation.Slot.step_free hstep
      refine Generation.Runs.stale hafter (hR'.slot u) ?_ ht'
      rw [count_onSlot]
      exact hthreads hzero
  · -- The slot of the process has been handed out again.
    have hslot := Runs.processSlot (p := u.pid) hrest
    rw [hp] at hslot
    refine hslot.counter_ne ?_ ?_ (hR'.toCoherent.slot u.pid _ hp').symm
    · rw [count_onSlot, hspawns]
      exact Nat.pos_of_ne_zero hzero
    · rw [count_onSlot, hspawns]
      exact hprocesses

/-! A port whose thread has gone names nobody, as long as no counter is used up. -/

/-- The process slot or, while the process is there, the thread slot has moved on. -/
def Gone (R : Registry) (port : IpcPort) : Prop :=
  (R.processSlot port.pid).Past port.pvn ∨
    port.pvn = R.processVersion port.pid ∧
      (R.threadSlot { pid := port.pid, tid := port.tid }).Past port.tvn

theorem Gone.resolve {port : IpcPort} (h : R.Gone port) (hR : R.Intact)
    (hversioned : port.unversioned = false) (parent : Pid) : R.resolve port parent = 0 := by
  rw [resolve_of_versioned hversioned, if_neg]
  rintro ⟨hprocess, hthread⟩
  rcases h with hpast | ⟨-, hpast⟩
  · exact hpast.ne_occupant (hR.toCoherent.slot _) hprocess
  · exact hpast.ne_occupant (hR.slot _) hthread

theorem toNat_succ_lt_of_ne {v : BitVec 8} (h : v ≠ 255) : v.toNat + 1 < 2 ^ 8 := by
  have hlt := v.isLt
  have hne : v.toNat ≠ 255 := fun heq => h (BitVec.eq_of_toNat_eq heq)
  omega

theorem Past.processSlot_apply {v : BitVec 8} (h : (R.processSlot p).Past v)
    (hvalid : R.Valid op) (hfresh : R.Fresh op) : ((R.apply op).processSlot p).Past v := by
  refine h.runs (Registry.processSlot_apply hvalid) ?_
  unfold onSlot
  split
  · next hspawn =>
    cases op with
    | spawn pid parent =>
      obtain rfl : pid = p := of_decide_eq_true hspawn
      exact toNat_succ_lt_of_ne hfresh
    | _ => cases hspawn
  · split <;> exact (R.processSlot p).counter.isLt

theorem Past.threadSlot_apply {v : BitVec 8} (h : (R.threadSlot u).Past v) (hvalid : R.Valid op)
    (hkeeps : R.Keeps op) (hfresh : R.Fresh op) (hspawn : op.spawns u.pid = false) :
    ((R.apply op).threadSlot u).Past v := by
  refine h.runs (Registry.threadSlot_apply hvalid hkeeps hspawn) ?_
  unfold onSlot
  split
  · next hcreate =>
    cases op with
    | create uid =>
      obtain rfl : uid = u := of_decide_eq_true hcreate
      exact toNat_succ_lt_of_ne hfresh
    | _ => cases hcreate
  · split <;> exact (R.threadSlot u).counter.isLt

theorem processVersion_apply (h : op.spawns p = false) :
    (R.apply op).processVersion p = R.processVersion p := by
  cases op with
  | spawn pid parent => exact if_neg (Ne.symm (of_decide_eq_false h))
  | _ => rfl

theorem Gone.apply {port : IpcPort} (h : R.Gone port) (hvalid : R.Valid op) (hkeeps : R.Keeps op)
    (hfresh : R.Fresh op) : (R.apply op).Gone port := by
  cases hspawn : op.spawns port.pid with
  | true =>
    have hempty : (R.processSlot port.pid).occupant = none := by
      cases op with
      | spawn pid parent =>
        obtain rfl : pid = port.pid := of_decide_eq_true hspawn
        exact congrArg (Option.map _) hvalid
      | _ => cases hspawn
    have hpast : (R.processSlot port.pid).Past port.pvn :=
      h.elim id fun hlast => Or.inr ⟨hlast.1, hempty⟩
    exact Or.inl (Past.processSlot_apply hpast hvalid hfresh)
  | false =>
    refine h.imp (fun hpast => Past.processSlot_apply hpast hvalid hfresh) fun hlast => ?_
    rw [processVersion_apply hspawn]
    exact ⟨hlast.1, Past.threadSlot_apply hlast.2 hvalid hkeeps hfresh hspawn⟩

/-- The converse of `Intact.port_eq`. -/
theorem Intact.port_of_slots (hR : R.Intact) {v w : BitVec 8}
    (hprocess : (R.processSlot u.pid).occupant = some v)
    (hthread : (R.threadSlot u).occupant = some w) :
    R.port u = some { pid := u.pid, pvn := v, tid := u.tid, tvn := w } := by
  obtain ⟨r, hr, rfl⟩ := Option.map_eq_some_iff.mp hprocess
  obtain ⟨t, ht, rfl⟩ := Option.map_eq_some_iff.mp hthread
  rw [port, hr, ht, ← hR.pid _ _ hr, ← hR.tid _ _ ht]
  rfl

/-- After an operation a thread has the same port, or it is dead and its port has gone. -/
theorem Intact.port_apply (hR : R.Intact) {port : IpcPort} (hport : R.port u = some port)
    (hvalid : R.Valid op) (hkeeps : R.Keeps op) : (R.apply op).port u = some port ∨
      (R.apply op).thread u = none ∧ (R.apply op).Gone port := by
  obtain ⟨hprocess, hthread, rfl⟩ := hR.port_eq hport
  cases hend : op.ends u with
  | false =>
    have hone : Runs Keeps R [op] (R.apply op) := .cons rfl ⟨hvalid, hkeeps⟩ (.nil _)
    obtain ⟨hp, ht⟩ := hone.slots_eq hprocess hthread (by rw [List.any_cons, hend]; rfl)
    rw [← hp] at hprocess
    rw [← ht] at hthread
    exact Or.inl ((hR.apply hvalid hkeeps).port_of_slots hprocess hthread)
  | true =>
    refine Or.inr ?_
    cases op with
    | exit uid =>
      obtain rfl : uid = u := of_decide_eq_true hend
      have hnone : (R.apply (.exit uid)).thread uid = none := if_pos rfl
      exact ⟨hnone, Or.inr ⟨rfl, Or.inr ⟨rfl, congrArg (Option.map _) hnone⟩⟩⟩
    | kill pid =>
      obtain rfl : pid = u.pid := of_decide_eq_true hend
      have hnone : (R.apply (.kill u.pid)).process u.pid = none := if_pos rfl
      exact ⟨if_pos rfl, Or.inl (Or.inr ⟨rfl, congrArg (Option.map _) hnone⟩)⟩
    | _ => cases hend

end Registry

end Horizon
