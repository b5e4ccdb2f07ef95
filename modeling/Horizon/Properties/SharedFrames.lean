import Horizon.Memory.Allocation
import Horizon.Properties.KernelHalf
import Horizon.System.Exposed

/-!
# Horizon — who can reach which frame

A run in which no process or thread comes or goes (`Event.settled`) consists of memory calls,
messages, interrupts and the stores of the programs, in any order. `pmap` is not part of it, since
it maps any frame and takes no reference, and `grant` and `accept` have to stay below the kernel's
half. So do the buffers of `recv` and `drop`, which are accepted wherever something is mapped: page
tables can be reached through the recursive mapping (`Event.Spares`). All that such a run does to
the address spaces are operations of the frame pool, so its invariants hold throughout.
-/

namespace Horizon

open StateError FramePool Vm

variable {k k₀ k' : Kernel} {e : Event} {es : List Event} {pid : Pid}

/-! ## Events that leave the address spaces alone -/

/-- The address spaces and the allocator are the same. -/
structure SameSpaces (k k' : Kernel) : Prop where
  vm : k'.vm = { k.vm with ram := k'.vm.ram, cr3 := k'.vm.cr3 }
  dirs : k'.dirs = k.dirs
  named : k.Named → k'.Named

instance : Std.Refl SameSpaces where
  refl _ := ⟨rfl, rfl, id⟩

instance : IsTrans Kernel SameSpaces where
  trans _ _ _ h₁ h₂ := by
    refine ⟨?_, h₂.dirs.trans h₁.dirs, fun h => h₂.named (h₁.named h)⟩
    have h := h₂.vm
    rw [h₁.vm] at h
    exact h

abbrev Effect.spaceless : List Effect :=
  [.log, .ram, .cr3, .result, .frame, .sched, .task, .offer, .state, .active, .lock, .links, .queue,
    .history, .irq, .service, .fault]

theorem sameSpaces_setBlock {b : Block} (hpid : b.process.pid = (k.blocks pid).process.pid)
    (hdir : b.process.addrSpace = (k.blocks pid).process.addrSpace) :
    SameSpaces k (k.setBlock pid b) := by
  refine ⟨rfl, funext fun p => if_congr Iff.rfl (congrArg some ?_) rfl, fun hnamed p hp => ?_⟩
  · rw [Kernel.blocks_setBlock]
    split
    · next hp => rw [hp, hdir]
    · rfl
  · rw [Kernel.blocks_setBlock]
    split
    · next heq => exact hpid.trans (heq ▸ hnamed p hp)
    · exact hnamed p hp

theorem Change.sameSpaces {f : Effect} (h : Change f k k') (hf : f ∈ Effect.spaceless) :
    SameSpaces k k' := by
  cases h with
  | sched | task | offer | state => exact sameSpaces_setBlock rfl rfl
  | links _ _ _ h =>
    obtain ⟨_, hb⟩ := h.process
    exact sameSpaces_setBlock (by rw [hb]) (by rw [hb])
  | queue _ _ _ h =>
    obtain ⟨_, hb⟩ := h.process
    exact sameSpaces_setBlock (by rw [hb]) (by rw [hb])
  | paging | entry | exit | free | create => exact absurd hf (by decide)
  | _ => exact ⟨rfl, rfl, id⟩

theorem Does.sameSpaces {α : Type} {S : List Effect} {x : KernelM α}
    [hS : StateError.Within S Effect.spaceless] (h : Does S x) : Ensures SameSpaces x :=
  h.ensures fun f hf _ _ hc => hc.sameSpaces (hS.mem f hf)

/-- The calls that neither make nor end a process or a thread. -/
def Syscall.settled : Syscall → Bool
  | .spawn | .launch .. | .dispatch .. | .release _ | .kill _ | .pmap .. => false
  | _ => true

def Event.settled : Event → Bool
  | .syscall frame _ => (Syscall.decode frame).all Syscall.settled
  | .userfault _ | .pagefault _ => false
  | _ => true

/-- The memory that an event maps into another address space. -/
def Event.transfer (k : Kernel) : Event → Option Transfer
  | .syscall frame _ => (Syscall.decode frame).bind fun call =>
      call.transfer { k with frame } k.schedulerCurr.pid
  | _ => none

theorem Syscall.run_sameSpaces {call : Syscall} {input : Word} (hsettled : call.settled = true)
    (hmemory : call.memory = false) : Ensures SameSpaces (call.run input) := by
  cases call with
  | yield => exact syscallYield_does.sameSpaces
  | wait => exact (syscallWait_does _).sameSpaces
  | send => exact (syscallSend_does _).sameSpaces
  | recv => exact (syscallRecv_does _).sameSpaces
  | peek => exact syscallPeek_does.sameSpaces
  | drop => exact (syscallDrop_does _).sameSpaces
  | svcown => exact (syscallSvcown_does _).sameSpaces
  | svcid => exact (syscallSvcid_does _).sameSpaces
  | sysio => exact (syscallReturnSet_does _).sameSpaces
  | spawn | launch | dispatch | release | kill => cases hsettled
  | _ => cases hmemory

theorem runIrq_sameSpaces (line : Nat) : Ensures SameSpaces (runIrq line) := by
  refine .bind .get fun k => ?_
  split
  · split
    · exact .pure _
    · exact timerTick_does.sameSpaces
    · exact (serviceGet_does _).sameSpaces.bind fun _ =>
        .ite (.pure _) (internalKsend_does _ _ _).sameSpaces
  · exact .pure _

/-! ## One event -/

/-- The operations that an event with the transfers `T` may consist of: they take references, and
they share memory from the source of a transfer to its target. -/
def Allows (T : Option Transfer) (op : Op Slot Frame) : Prop :=
  op.counts = true ∧ ∀ x y m table, op = .share x y m table →
    ∃ t ∈ T, x.1 = t.target ∧ y.1 = t.source

theorem Syscall.ops_allows {call : Syscall} {op : Op Slot Frame} (hsettled : call.settled = true)
    (h : call.ops k pid op) : Allows (call.transfer k pid) op := by
  have hshares : ∀ t ∈ call.transfer k pid, t.Shares op → Allows (call.transfer k pid) op := by
    rintro t ht ⟨n, m, table, rfl, -⟩
    refine ⟨rfl, fun x y m table h => ?_⟩
    cases h
    exact ⟨t, ht, rfl, rfl⟩
  cases call with
  | vmap dest size =>
    obtain ⟨x, m, table, rfl, -⟩ := h
    exact ⟨rfl, fun _ _ _ _ h => by cases h⟩
  | pmap dest src size => cases hsettled
  | unmap addr size =>
    obtain ⟨x, m, rfl, -⟩ := h
    exact ⟨rfl, fun _ _ _ _ h => by cases h⟩
  | grant info dest =>
    obtain ⟨t, ht, h | ⟨n, m, rfl, -⟩⟩ := h
    · exact hshares t ht h
    · exact ⟨rfl, fun _ _ _ _ h => by cases h⟩
  | _ =>
    obtain ⟨t, ht, h⟩ := h
    exact hshares t ht h

theorem SameSpaces.remapped {A : Set Pid} {allowed : Op Slot Frame → Prop} (h : SameSpaces k k') :
    Remapped A allowed k k' := by
  refine ⟨h.dirs, h.named, k'.vm, .of_same ?_ ?_, .refl _⟩
  · rw [h.vm]
    exact ⟨rfl, rfl, rfl⟩
  · rw [h.vm]
    rfl

/-- A settled event that the kernel handles without a page fault. Memory goes only where `G` allows
it. -/
structure Event.Settles (G : Transfer → Prop) (k : Kernel) (e : Event) (k' : Kernel) : Prop where
  settled : e.settled = true
  transfers : ∀ t ∈ e.transfer k, t.Low ∧ G t
  handled : e.handle k = .ok () k'

/-- Runs of such events that spare the kernel's memory. -/
abbrev SettledRun (G : Transfer → Prop) : Kernel → List Event → Kernel → Prop :=
  Exposed.Run fun k e k' => e.Settles G k k'

variable {G : Transfer → Prop}

theorem Event.Settles.remapped (h : e.Settles G k k') (hk : k.Named) :
    Remapped Set.univ (Allows (e.transfer k)) k k' := by
  obtain ⟨hsettled, hlow, h⟩ := h
  cases e with
  | syscall frame input =>
    obtain ⟨_, k₁, henter, hrun⟩ := bind_eq_ok.mp h
    obtain rfl := modify_eq_ok.mp henter
    have hentered : SameSpaces k { k with frame } := ⟨rfl, rfl, id⟩
    simp only [Event.settled, Event.transfer] at hsettled hlow ⊢
    cases hcall : Syscall.decode frame with
    | none =>
      rw [hcall] at hrun
      obtain ⟨-, rfl⟩ := pure_eq_ok.mp hrun
      exact hentered.remapped
    | some call =>
      rw [hcall] at hrun hsettled hlow
      cases hmemory : call.memory with
      | false =>
        have hsame := (call.run_sameSpaces hsettled hmemory).ok hrun
        exact (IsTrans.trans _ _ _ hentered hsame).remapped
      | true =>
        obtain ⟨hdirs, hnamed, vm, hmade, hdropped⟩ :=
          call.run_remapped hmemory (fun t ht => (hlow t ht).1) (hentered.named hk) hrun
        have hallows : ∀ op, call.ops { k with frame } k.schedulerCurr.pid op → Allows _ op :=
          fun _ => Syscall.ops_allows hsettled
        exact ⟨hdirs, hnamed, vm, (hmade.mono hallows).widen (Set.subset_univ _),
          (hdropped.mono hallows).widen (Set.subset_univ _)⟩
  | irq frame line =>
    refine SameSpaces.remapped (Ensures.ok ?_ h)
    exact .bind (enter_does frame).sameSpaces fun _ => runIrq_sameSpaces _
  | ksend port code args => exact ((internalKsend_does _ _ _).sameSpaces.ok h).remapped
  | store addr byte => exact ((userStore_does _ _).sameSpaces.ok h).remapped
  | userfault frame | pagefault frame => cases hsettled

instance : Finite Slot :=
  Finite.of_injective (fun x : Slot => (x.1.toFin, x.2.1.toFin, x.2.2.toFin)) fun x y h => by
    simp only [Prod.mk.injEq, BitVec.toFin_inj] at h
    exact Prod.ext h.1 (Prod.ext h.2.1 h.2.2)

/-- What every allowed operation keeps. -/
theorem Remapped.invariant {A : Set Pid} {allowed : Op Slot Frame → Prop}
    {J : Pool Slot Frame → Prop} (h : Remapped A allowed k k') (htidy : k.vm.Tidy k.dirs)
    (hJ : ∀ P op, J P → P.Valid op → allowed op → J (P.apply op)) (hk : J (k.vm.pool k.dirs)) :
    J (k'.vm.pool k'.dirs) := by
  have hkeep : ∀ P op P', J P → Pool.step P op = some P' → P.Valid op ∧ allowed op → J P' := by
    rintro P op _ hP hstep ⟨hvalid, hop⟩
    cases hstep
    exact hJ P op hP hvalid hop
  obtain ⟨vm, hmade, hdropped⟩ := h.remaps
  obtain ⟨htidy', -, _, hops⟩ := hmade htidy
  obtain ⟨-, -, _, hops'⟩ := hdropped htidy'.toSeparate
  rw [h.dirs]
  exact Steps.invariant hkeep hops' (Steps.invariant hkeep hops hk)

/-! ## Runs -/

/-- The reference counts are right, and nothing of the kernel's is mapped for a process. -/
structure Kernel.Counted (k : Kernel) : Prop where
  named : k.Named
  separate : k.vm.Separate k.dirs
  sized : k.vm.blockCount ≤ 2 ^ 20
  consistent : (k.vm.pool k.dirs).Consistent
  guarded : (k.vm.pool k.dirs).Guarded

namespace Kernel.Counted

theorem tidy (h : k.Counted) : k.vm.Tidy k.dirs where
  toSeparate := h.separate
  held hu hf := ((h.consistent _).free hf).2.2 (Or.inl ⟨_, hu⟩)
  sized := h.sized

theorem next (hk : k.Counted) (h : e.Settles G k k') :
    k'.Counted ∧ k'.dirs = k.dirs ∧ Within k.dirs Set.univ k.vm k'.vm := by
  have hstep := h.remapped hk.named
  have hwithin := hstep.within hk.tidy
  have hpool : (k'.vm.pool k'.dirs).Consistent ∧ (k'.vm.pool k'.dirs).Guarded :=
    hstep.invariant (J := fun P => P.Consistent ∧ P.Guarded) hk.tidy
      (fun P op hP hvalid hop => ⟨hP.1.apply hvalid hop.1, hP.2.apply hP.1 hvalid hop.1⟩)
      ⟨hk.consistent, hk.guarded⟩
  obtain ⟨vm, hmade, hdropped⟩ := hstep.remaps
  have hsep := (hdropped (hmade hk.tidy).1.toSeparate).1
  exact ⟨⟨hstep.named hk.named, hstep.dirs ▸ hsep, hwithin.blockCount.le.trans hk.sized,
    hpool.1, hpool.2⟩, hstep.dirs, hwithin⟩

theorem run (hk : k₀.Counted) (hrun : SettledRun G k₀ es k) : k.Counted :=
  Steps.invariant (fun _ _ _ hk _ h => (hk.next h).1) hrun.steps hk

end Kernel.Counted

end Horizon
