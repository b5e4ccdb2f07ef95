import Horizon.System.Boot
import Horizon.System.Registry

/-!
# Horizon — the registry of a kernel state

`Kernel.registry` reads the registry off the control blocks. Most of what the kernel does leaves
it alone (`Routine`). The four functions that create and kill are one operation each:
`processNew_registry`, `threadNew_registry`, `threadKill_registry`, `processKill_registry`.
-/

namespace Horizon

open StateError

variable {k k' t : Kernel} {uid v : ThreadUid} {pid p : Pid}

def Process.record (p : Process) : ProcessRecord where
  pid := p.pid
  version := p.version
  parent := p.parent
  priv := p.priv

def Thread.record (t : Thread) : ThreadRecord where
  tid := t.tid
  version := t.version

/-- The kernel as the registry sees it. -/
def Kernel.registry (k : Kernel) : Registry where
  process p := (k.processGet p).map Process.record
  processVersion := k.blockVersions
  thread u := (k.threadGet u).map Thread.record
  threadVersion u := (k.blocks u.pid).process.threadInfo.versions u.tid.toNat
  service := k.serviceIds
  handle := k.irqHandle
  enabled := k.irqEnabled

namespace Kernel

theorem registry_process : k.registry.process p =
    if k.liveProcess p then some (k.blocks p).process.record else none := by
  simp only [registry, processGet_eq]
  cases k.liveProcess p <;> rfl

theorem registry_thread :
    k.registry.thread uid = if k.live uid then some (k.thread uid).record else none := by
  simp only [registry, threadGet_eq]
  cases k.live uid <;> rfl

theorem registry_process_isSome : (k.registry.process p).isSome = k.liveProcess p := by
  rw [registry_process]
  cases k.liveProcess p <;> rfl

theorem registry_thread_isSome : (k.registry.thread uid).isSome = k.live uid := by
  rw [registry_thread]
  cases k.live uid <;> rfl

theorem registry_port (h : k.live uid = true) : k.registry.port uid = some (k.portOfUid uid) := by
  rw [Registry.port, registry_process, registry_thread, h, liveProcess_of_live h]
  rfl

theorem registry_resolve (port : IpcPort) (parent : Pid) :
    k.registry.resolve port parent = k.portToUid port parent := by
  rw [Registry.resolve, portToUid, registry_process, registry_thread, threadGet_eq]
  refine if_congr Iff.rfl rfl (if_congr Iff.rfl rfl ?_)
  cases h : k.live { pid := port.pid, tid := port.tid } with
  | false => simp
  | true =>
    have hp : k.liveProcess port.pid = true := liveProcess_of_live h
    simp only [hp, if_true, Option.map_some, Option.some.injEq, Process.record, Thread.record]
    by_cases hpvn : (k.blocks port.pid).process.version = port.pvn
    · by_cases htvn : (k.thread { pid := port.pid, tid := port.tid }).version = port.tvn
      · simp [hpvn, htvn]
      · simp [htvn]
    · simp [hpvn]

theorem registry_process_setBlock {b : Block}
    (h : b.process.record = (k.blocks pid).process.record) :
    (k.setBlock pid b).registry.process = k.registry.process := by
  funext p
  have hlive : (k.setBlock pid b).liveProcess p = k.liveProcess p := rfl
  rw [registry_process, registry_process, hlive, blocks_setBlock]
  by_cases hp : p = pid
  · rw [if_pos hp, hp, h]
  · rw [if_neg hp]

theorem registry_threadVersion_setBlock {b : Block} :
    (k.setBlock pid b).registry.threadVersion uid =
      if uid.pid = pid then b.process.threadInfo.versions uid.tid.toNat
      else k.registry.threadVersion uid := by
  simp only [registry, blocks_setBlock]
  split
  · rfl
  · rfl

/-- PIDs 0 and 1 are never handed out. -/
def Reserved (k : Kernel) : Prop := k.blockMap.test 0 = true ∧ k.blockMap.test 1 = true

end Kernel

/-! ## What leaves the registry alone -/

structure Routine (k k' : Kernel) : Prop where
  registry : k'.registry = k.registry
  blockMap : k'.blockMap = k.blockMap

abbrev Effect.routine : List Effect :=
  [.log, .ram, .paging, .cr3, .result, .frame, .sched, .task, .offer, .state, .active, .lock, .links,
    .queue, .history, .entry, .fault]

instance : Std.Refl Routine where
  refl _ := ⟨rfl, rfl⟩

instance : IsTrans Kernel Routine where
  trans _ _ _ h₁ h₂ := ⟨h₂.registry.trans h₁.registry, h₂.blockMap.trans h₁.blockMap⟩

theorem Routine.reserved (h : Routine k k') (hk : k.Reserved) : k'.Reserved := by
  rwa [Kernel.Reserved, h.blockMap]

theorem OnlyMemory.routine (h : OnlyMemory k k') : Routine k k' := by
  rw [h.eq]
  exact ⟨rfl, rfl⟩

/-- The part of a control block that the registry shows. -/
structure Block.SameNames (b b' : Block) : Prop where
  process : b'.process.record = b.process.record
  bitmap : b'.process.threadInfo.bitmap = b.process.threadInfo.bitmap
  versions : b'.process.threadInfo.versions = b.process.threadInfo.versions
  thread : ∀ tid, (b'.threads tid).record = (b.threads tid).record

instance : Std.Refl Block.SameNames where
  refl _ := ⟨rfl, rfl, rfl, fun _ => rfl⟩

theorem routine_setBlock {b : Block} (h : (k.blocks pid).SameNames b) :
    Routine k (k.setBlock pid b) := by
  have hblocks : ∀ p, (k.blocks p).SameNames ((k.setBlock pid b).blocks p) := by
    intro p
    rw [Kernel.blocks_setBlock]
    split
    · next hp =>
      rw [hp]
      exact h
    · exact Std.Refl.refl _
  have hlive : ∀ p, (k.setBlock pid b).liveProcess p = k.liveProcess p := fun p => rfl
  refine ⟨Registry.ext (funext fun p => ?_) rfl (funext fun u => ?_) (funext fun u => ?_)
    rfl rfl rfl, rfl⟩
  · rw [Kernel.registry_process, Kernel.registry_process, hlive, (hblocks p).process]
  · rw [Kernel.registry_thread, Kernel.registry_thread, Kernel.live, Kernel.live, hlive,
      Block.live, (hblocks u.pid).bitmap, Kernel.thread, Kernel.thread, (hblocks u.pid).thread]
    rfl
  · exact congrFun (hblocks u.pid).versions _

theorem routine_setThread {t : Thread} (h : t.record = (k.thread uid).record) :
    Routine k (k.setThread uid t) := by
  refine routine_setBlock ⟨rfl, rfl, rfl, fun tid => ?_⟩
  by_cases htid : tid = uid.tid
  · subst htid
    exact (congrArg Thread.record (Function.update_self ..)).trans h
  · exact congrArg Thread.record (Function.update_of_ne htid _ _)

theorem Block.SameExceptQueues.sameNames {b b' : Block} (h : b.SameExceptQueues b') :
    b.SameNames b' := by
  obtain ⟨m, hm⟩ := h.process
  refine ⟨?_, ?_, ?_, fun tid => ?_⟩
  · rw [hm]
    rfl
  · rw [hm]
  · rw [hm]
  · obtain ⟨q, hq⟩ := h.thread tid
    rw [hq]
    rfl

theorem Change.routine {e : Effect} (h : Change e k k') (he : e ∈ Effect.routine) :
    Routine k k' := by
  cases h with
  | sched | task | offer | state => exact routine_setThread rfl
  | links _ _ _ h => exact routine_setBlock h.sameNames
  | queue _ _ _ h => exact routine_setBlock h.sameNames
  | entry => exact routine_setBlock ⟨rfl, rfl, rfl, fun _ => rfl⟩
  | log | ram | paging | cr3 | result | frame | active | lock | history => exact ⟨rfl, rfl⟩
  | _ => exact absurd he (by decide)

theorem Does.routine {α : Type} {S : List Effect} {x : KernelM α}
    [hS : Within S Effect.routine] (h : Does S x) : Ensures Routine x :=
  h.ensures fun e he _ _ hc => hc.routine (hS.mem e he)

end Horizon
