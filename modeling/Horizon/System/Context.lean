import Horizon.System.Simulation

/-!
# Horizon — what leaves the saved registers alone

`Kept` relates states in which every thread that is still alive has the registers, the owner and
the address space it had. `Running` says in addition that the same thread is running, in the same
registers and under the same page directory. All of message passing is `Running` but for
`scheduler_add`, which starts the first thread of an empty ring.
-/

namespace Horizon

open StateError

variable {k k' : Kernel} {uid : ThreadUid}

structure Kept (k k' : Kernel) : Prop where
  live : ∀ u, k'.live u = true → k.live u = true
  task : ∀ u, (k'.thread u).task = (k.thread u).task
  owner : ∀ u, (k'.thread u).owner = (k.thread u).owner
  addrSpace : ∀ pid, (k'.blocks pid).process.addrSpace = (k.blocks pid).process.addrSpace
  locked : k'.locked = k.locked

structure Running (k k' : Kernel) : Prop extends Kept k k' where
  alive : ∀ u, k.live u = true → k'.live u = true
  active : k'.activeThread = k.activeThread
  frame : k'.frame = k.frame
  cr3 : k'.vm.cr3 = k.vm.cr3

abbrev Effect.running : List Effect :=
  [.log, .ram, .paging, .sched, .offer, .state, .links, .queue, .history, .irq, .service, .fault]

abbrev Effect.kept : List Effect :=
  .active :: .cr3 :: .result :: .frame :: .exit :: .free :: Effect.running

instance : Std.Refl Kept where
  refl _ := ⟨fun _ => id, fun _ => rfl, fun _ => rfl, fun _ => rfl, rfl⟩

instance : IsTrans Kernel Kept where
  trans _ _ _ h₁ h₂ :=
    ⟨fun u hu => h₁.live u (h₂.live u hu), fun u => (h₂.task u).trans (h₁.task u),
      fun u => (h₂.owner u).trans (h₁.owner u), fun p => (h₂.addrSpace p).trans (h₁.addrSpace p),
      h₂.locked.trans h₁.locked⟩

instance : Std.Refl Running where
  refl k := ⟨Std.Refl.refl k, fun _ => id, rfl, rfl, rfl⟩

instance : IsTrans Kernel Running where
  trans _ _ _ h₁ h₂ :=
    ⟨IsTrans.trans _ _ _ h₁.toKept h₂.toKept, fun u hu => h₂.alive u (h₁.alive u hu),
      h₂.active.trans h₁.active, h₂.frame.trans h₁.frame, h₂.cr3.trans h₁.cr3⟩

theorem Running.of_eq (hblocks : k'.blocks = k.blocks) (hmap : k'.blockMap = k.blockMap)
    (hactive : k'.activeThread = k.activeThread) (hlocked : k'.locked = k.locked)
    (hframe : k'.frame = k.frame) (hcr3 : k'.vm.cr3 = k.vm.cr3) : Running k k' := by
  have hlive : ∀ u, k'.live u = k.live u := by
    intro u
    rw [Kernel.live, Kernel.live, Kernel.liveProcess, Kernel.liveProcess, hblocks, hmap]
  refine ⟨⟨fun u hu => (hlive u).symm.trans hu, fun u => ?_, fun u => ?_, fun pid => ?_, hlocked⟩,
    fun u hu => (hlive u).trans hu, hactive, hframe, hcr3⟩
  · rw [Kernel.thread, Kernel.thread, hblocks]
  · rw [Kernel.thread, Kernel.thread, hblocks]
  · rw [hblocks]

theorem Reads.running (h : Reads k k') : Running k k' := by
  rw [h.eq]
  exact .of_eq rfl rfl rfl rfl rfl rfl

theorem running_setThread {t : Thread} (htask : t.task = (k.thread uid).task)
    (howner : t.owner = (k.thread uid).owner) : Running k (k.setThread uid t) := by
  refine ⟨⟨fun u hu => ?_, fun u => ?_, fun u => ?_, fun pid => ?_, rfl⟩, fun u hu => ?_, rfl, rfl,
    rfl⟩
  · rwa [Kernel.live_setThread] at hu
  · rw [Kernel.thread_setThread]
    split
    · next hu => rw [htask, hu]
    · rfl
  · rw [Kernel.thread_setThread]
    split
    · next hu => rw [howner, hu]
    · rfl
  · rw [Kernel.process_setThread]
  · rwa [Kernel.live_setThread]

/-- Queueing touches the queues and nothing else of a control block. -/
theorem Block.SameExceptQueues.running {pid : Pid} {b : Block}
    (hb : (k.blocks pid).SameExceptQueues b) : Running k (k.setBlock pid b) := by
  refine ⟨⟨fun u hu => (hb.live_setBlock u).symm.trans hu, fun u => ?_, fun u => ?_, fun p => ?_, rfl⟩,
    fun u hu => (hb.live_setBlock u).trans hu, rfl, rfl, rfl⟩
  · obtain ⟨q, hq⟩ := hb.thread_setBlock u
    rw [hq]
  · obtain ⟨q, hq⟩ := hb.thread_setBlock u
    rw [hq]
  · obtain ⟨m, hm⟩ := hb.process_setBlock p
    rw [hm]

theorem Change.running {e : Effect} (h : Change e k k') (he : e ∈ Effect.running) :
    Running k k' := by
  cases h with
  | sched | offer | state => exact running_setThread rfl rfl
  | links _ _ _ h => exact h.toSameExceptQueues.running
  | queue _ _ _ h => exact h.running
  | paging _ _ h => exact .of_eq rfl rfl rfl rfl rfl h
  | log | ram | history | irq | service => exact .of_eq rfl rfl rfl rfl rfl rfl
  | _ => exact absurd he (by decide)

theorem freeThread_kept (k : Kernel) (uid : ThreadUid) : Kept k (k.freeThread uid) := by
  refine ⟨fun u hu => ?_, fun u => ?_, fun u => ?_, fun pid => ?_, rfl⟩
  · rw [Kernel.live_freeThread, Bool.and_eq_true] at hu
    exact hu.2
  · rw [Kernel.thread, Kernel.freeThread, Kernel.blocks_setBlock]
    split
    · next hu => rw [Kernel.thread, hu]
    · rfl
  · rw [Kernel.thread, Kernel.freeThread, Kernel.blocks_setBlock]
    split
    · next hu => rw [Kernel.thread, hu]
    · rfl
  · rw [Kernel.freeThread, Kernel.blocks_setBlock]
    split
    · next hpid => rw [hpid]
    · rfl

theorem freeProcess_kept (k : Kernel) (pid : Pid) : Kept k (k.freeProcess pid) := by
  refine ⟨fun u hu => ?_, fun _ => rfl, fun _ => rfl, fun _ => rfl, rfl⟩
  rw [Kernel.live, Bool.and_eq_true, Kernel.liveProcess_freeProcess, Bool.and_eq_true] at hu
  rw [Kernel.live, Bool.and_eq_true]
  exact ⟨hu.1.2, hu.2⟩

theorem Change.kept {e : Effect} (h : Change e k k') (he : e ∈ Effect.kept) : Kept k k' := by
  by_cases hrunning : e ∈ Effect.running
  · exact (h.running hrunning).toKept
  cases h with
  | exit => exact freeThread_kept k _
  | free => exact freeProcess_kept k _
  | active | cr3 | result | frame =>
    exact ⟨fun _ => id, fun _ => rfl, fun _ => rfl, fun _ => rfl, rfl⟩
  | task | lock | entry | create => exact absurd he (by decide)
  | _ => exact absurd (by decide) hrunning

theorem Does.running {α : Type} {S : List Effect} {x : KernelM α}
    [hS : Within S Effect.running] (h : Does S x) : Ensures Running x :=
  h.ensures fun e he _ _ hc => hc.running (hS.mem e he)

theorem Does.kept {α : Type} {S : List Effect} {x : KernelM α}
    [hS : Within S Effect.kept] (h : Does S x) : Ensures Kept x :=
  h.ensures fun e he _ _ hc => hc.kept (hS.mem e he)

/-- With a thread running, another one that becomes runnable does not replace it. -/
theorem schedulerAdd_running (hactive : k.activeThread.pid ≠ 0)
    (h : schedulerAdd uid k = .ok () k') : Running k k' := by
  have hring : Does [.sched] (do
      let curr ← derefThread k.activeThread
      let prev := curr.schedInfo.prev
      let _ ← derefThread prev
      modifySched uid fun s => { s with next := k.activeThread, prev := prev }
      modifySched k.activeThread fun s => { s with prev := uid }
      modifySched prev fun s => { s with next := uid } : KernelM Unit) :=
    .sub <| .bind (derefThread_does _) fun _ => .bind (derefThread_does _) fun _ =>
      .bind (modifySched_does _ _) fun _ => .bind (modifySched_does _ _) fun _ =>
        modifySched_does _ _
  simp only [schedulerAdd, get_bind_apply, bind_eq_ok, dassertSome_threadGet_eq_ok,
    dassert_eq_ok, modifyThread_eq_ok] at h
  obtain ⟨_, _, ⟨-, rfl, rfl⟩, _, _, ⟨-, rfl⟩, _, k₁, rfl, hinsert⟩ := h
  have hset : Running k (k.setThread uid { k.thread uid with
      state := .active
      schedInfo := { (k.thread uid).schedInfo with timeslice := schedulerTimeslice } }) :=
    running_setThread rfl rfl
  rw [ringInsert, get_bind_apply] at hinsert
  refine IsTrans.trans _ _ _ hset (hring.running.ok ((congrFun (if_neg ?_) _).symm.trans hinsert))
  exact hactive

end Horizon
