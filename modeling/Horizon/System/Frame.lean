import Horizon.System.Footprint

/-!
# Horizon — what scheduling and memory operations leave alone

Most of what the kernel does between two message operations does not concern messages:
`Quiet` relates states that differ only in saved registers, ring links, shared-memory
offers, page tables, services and the like. `Still` says in addition that the same thread
is running.
-/

namespace Horizon

open StateError

/-- The part of a thread that message passing depends on. -/
def Thread.core (t : Thread) : Thread :=
  { t with
    task := {}
    schedInfo := {}
    syscallInfo := { t.syscallInfo with shmOffer := {} } }

/-- The part of a process that message passing depends on. -/
def Process.core (p : Process) : Process := { p with entry := 0 }

structure Quiet (k k' : Kernel) : Prop where
  thread : ∀ uid, (k'.thread uid).core = (k.thread uid).core
  process : ∀ pid, (k'.blocks pid).process.core = (k.blocks pid).process.core
  messages : ∀ pid, (k'.blocks pid).messages = (k.blocks pid).messages
  blockMap : k'.blockMap = k.blockMap
  history : k'.history = k.history
  services : k'.serviceIds = k.serviceIds

structure Still (k k' : Kernel) : Prop extends Quiet k k' where
  active : k'.activeThread = k.activeThread
  locked : k'.locked = k.locked

/-- The kinds of change that message passing and the running thread do not notice. -/
abbrev Effect.still : List Effect :=
  [.log, .ram, .paging, .cr3, .result, .frame, .sched, .task, .offer, .irq, .entry, .fault]

abbrev Effect.quiet : List Effect := .active :: .lock :: Effect.still

instance : Std.Refl Quiet where
  refl _ := ⟨fun _ => rfl, fun _ => rfl, fun _ => rfl, rfl, rfl, rfl⟩

instance : IsTrans Kernel Quiet where
  trans _ _ _ h₁ h₂ :=
    ⟨fun u => (h₂.thread u).trans (h₁.thread u), fun p => (h₂.process p).trans (h₁.process p),
      fun p => (h₂.messages p).trans (h₁.messages p), h₂.blockMap.trans h₁.blockMap,
      h₂.history.trans h₁.history, h₂.services.trans h₁.services⟩

instance : Std.Refl Still where
  refl k := ⟨Std.Refl.refl k, rfl, rfl⟩

instance : IsTrans Kernel Still where
  trans _ _ _ h₁ h₂ :=
    ⟨IsTrans.trans _ _ _ h₁.toQuiet h₂.toQuiet, h₂.active.trans h₁.active,
      h₂.locked.trans h₁.locked⟩

theorem Quiet.refl (k : Kernel) : Quiet k k := Std.Refl.refl k

theorem Quiet.trans {k₁ k₂ k₃ : Kernel} (h₁ : Quiet k₁ k₂) (h₂ : Quiet k₂ k₃) : Quiet k₁ k₃ :=
  IsTrans.trans _ _ _ h₁ h₂

theorem Still.refl (k : Kernel) : Still k k := Std.Refl.refl k

theorem Still.trans {k₁ k₂ k₃ : Kernel} (h₁ : Still k₁ k₂) (h₂ : Still k₂ k₃) : Still k₁ k₃ :=
  IsTrans.trans _ _ _ h₁ h₂

namespace Kernel

variable {k : Kernel} {uid v : ThreadUid} {t : Thread}

theorem thread_setThread : (k.setThread uid t).thread v = if v = uid then t else k.thread v := by
  simp only [thread, setThread, setBlock, Block.setThread]
  by_cases hpid : v.pid = uid.pid
  · rw [hpid, Function.update_self]
    by_cases htid : v.tid = uid.tid
    · have hv : v = uid := ThreadUid.ext hpid htid
      rw [if_pos hv, htid]
      exact Function.update_self ..
    · have hv : v ≠ uid := fun h => htid (by rw [h])
      rw [if_neg hv]
      exact Function.update_of_ne htid _ _
  · have hv : v ≠ uid := fun h => hpid (by rw [h])
    rw [Function.update_of_ne hpid, if_neg hv]

theorem process_setThread {pid : Pid} :
    ((k.setThread uid t).blocks pid).process = (k.blocks pid).process := by
  simp only [setThread, setBlock]
  by_cases h : pid = uid.pid
  · rw [h, Function.update_self]
    rfl
  · rw [Function.update_of_ne h]

theorem messages_setThread {pid : Pid} :
    ((k.setThread uid t).blocks pid).messages = (k.blocks pid).messages := by
  simp only [setThread, setBlock]
  by_cases h : pid = uid.pid
  · rw [h, Function.update_self]
    rfl
  · rw [Function.update_of_ne h]

theorem still_setThread (h : t.core = (k.thread uid).core) : Still k (k.setThread uid t) := by
  refine ⟨⟨fun v => ?_, fun pid => ?_, fun pid => ?_, rfl, rfl, rfl⟩, rfl, rfl⟩
  · rw [thread_setThread]
    split
    · next hv => rw [h, hv]
    · rfl
  · rw [process_setThread]
  · rw [messages_setThread]

end Kernel

theorem Change.still {e : Effect} {k k' : Kernel} (h : Change e k k') (he : e ∈ Effect.still) :
    Still k k' := by
  cases h with
  | sched | task | offer => exact Kernel.still_setThread rfl
  | entry _ pid =>
    refine ⟨⟨fun uid => ?_, fun p => ?_, fun p => ?_, rfl, rfl, rfl⟩, rfl, rfl⟩
    · rw [Kernel.thread, Kernel.thread, Kernel.blocks_setBlock]
      split
      · next hp => rw [hp]
      · rfl
    · rw [Kernel.blocks_setBlock]
      split
      · next hp =>
        rw [hp]
        rfl
      · rfl
    · rw [Kernel.blocks_setBlock]
      split
      · next hp => rw [hp]
      · rfl
  | log | ram | paging | cr3 | result | frame | irq =>
    exact ⟨⟨fun _ => rfl, fun _ => rfl, fun _ => rfl, rfl, rfl, rfl⟩, rfl, rfl⟩
  | _ => exact absurd he (by decide)

theorem Change.quiet {e : Effect} {k k' : Kernel} (h : Change e k k') (he : e ∈ Effect.quiet) :
    Quiet k k' := by
  rcases he with _ | ⟨_, _ | ⟨_, he⟩⟩
  · cases h
    exact ⟨fun _ => rfl, fun _ => rfl, fun _ => rfl, rfl, rfl, rfl⟩
  · cases h
    exact ⟨fun _ => rfl, fun _ => rfl, fun _ => rfl, rfl, rfl, rfl⟩
  · exact (h.still he).toQuiet

namespace Does

variable {α : Type} {S : List Effect} {x : KernelM α}

theorem still [hS : Within S Effect.still] (h : Does S x) : Ensures Still x :=
  h.ensures fun e he _ _ hc => hc.still (hS.mem e he)

theorem quiet [hS : Within S Effect.quiet] (h : Does S x) : Ensures Quiet x :=
  h.ensures fun e he _ _ hc => hc.quiet (hS.mem e he)

end Does

end Horizon
