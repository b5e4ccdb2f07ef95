import Horizon.System.Exposed
import Horizon.System.Mapping
import Horizon.System.RegistryTrace

/-!
# Horizon — who may act for a parent

A process keeps the PID of its parent, and `grant` lets whoever has this PID give memory to it.
PIDs are handed out again, lowest first, so this may be a process that came later and never had
anything to do with the child. We carry along a run which incarnation spawned each process
(`spawnStep`), and show that it is the one `grant` lets through, as long as no PID is handed out
that a live process still keeps as its parent's, and nobody writes over the control blocks.
-/

namespace Horizon

open StateError

variable {k k' k₀ : Kernel} {ev : Event} {evs : List Event} {p : Pid}

/-- A process, told from its predecessors by its version. -/
abbrev Incarnation := Pid × BitVec 8

def Kernel.incarnation (k : Kernel) (p : Pid) : Incarnation := (p, (k.blocks p).process.version)

def Event.spawns (ev : Event) : Bool :=
  match ev.call with
  | some .spawn => true
  | _ => false

/-- One event, with the incarnations whose `spawn` created each process. -/
def spawnStep (s : Kernel × (Pid → Option Incarnation)) (ev : Event) :
    Option (Kernel × (Pid → Option Incarnation)) :=
  (Exposed.step s.1 ev).map fun k' => (k',
    if ev.spawns then
      Function.update s.2 (k'.frame.eax.setWidth 10)
        (some (s.1.incarnation s.1.schedulerCurr.pid))
    else s.2)

/-- The PID that `spawn` hands out is not that of a parent: no live process keeps it, and it is
not the caller's. -/
def Kernel.SparesParents (k : Kernel) (ev : Event) : Prop :=
  ev.spawns = true → ∀ pid, k.nextPid = some pid → pid ≠ k.schedulerCurr.pid ∧
    ∀ t, k.liveProcess t = true → (k.blocks t).process.parent ≠ pid

/-- A parent that is alive is the incarnation that spawned the child. -/
structure Parents (k : Kernel) (creator : Pid → Option Incarnation) : Prop where
  reserved : k.Reserved
  coherent : k.registry.Coherent
  creator : ∀ p r q s, k.registry.process p = some r → r.parent = q →
    k.registry.process q = some s → creator p = some (q, s.version)

theorem Booted.parents (h : Booted k) : Parents k fun _ => none := by
  refine ⟨h.registry.reserved, h.registry.intact.toCoherent, fun p r q s hp hq hs => ?_⟩
  rw [h.registry.orphans p r hp] at hq
  subst hq
  rw [Kernel.registry_process] at hs
  cases hs

/-- Events other than `spawn` make no processes. -/
theorem process_of_step (hk : k.Reserved) (hev : ev.spawns = false) (h : k.step ev = some k')
    {r : ProcessRecord} (hr : k'.registry.process p = some r) : k.registry.process p = some r := by
  obtain ⟨-, ops, hruns⟩ := Kernel.step_registers hk h
  have hkeep : ∀ p r, k'.registry.process p = some r → k.registry.process p = some r := by
    refine Steps.invariant (I := fun R : Registry =>
      ∀ p r, R.process p = some r → k.registry.process p = some r) ?_ hruns fun _ _ => id
    rintro R op _ hR hstep ⟨-, hmay⟩
    cases hstep
    cases op with
    | spawn pid parent =>
      rw [Event.spawns, hmay.1] at hev
      cases hev
    | kill pid =>
      intro p r hp
      simp only [Registry.apply] at hp
      split at hp
      · cases hp
      · exact hR p r hp
    | _ => exact hR
  exact hkeep p r hr

theorem registry_process_eq_some {r : ProcessRecord} : k.registry.process p = some r ↔
    k.liveProcess p = true ∧ r = (k.blocks p).process.record := by
  rw [Kernel.registry_process, Option.ite_none_right_eq_some, Option.some.injEq, eq_comm (a := r)]

theorem parent_newProcess {R : Registry} {pid caller q : Pid}
    (hq : (R.newProcess pid caller).parent = q) (hne : q ≠ 0) : q = caller := by
  simp only [Registry.newProcess] at hq
  split at hq
  · exact hq.symm
  · exact absurd hq.symm hne

section Step

variable {creator creator' : Pid → Option Incarnation}

theorem Parents.step (h : Parents k creator) (hmemory : ev.Spares k) (hspare : k.SparesParents ev)
    (hspawn : spawnStep (k, creator) ev = some (k', creator')) : Parents k' creator' := by
  obtain ⟨t, hstep, heq⟩ := Option.map_eq_some_iff.mp hspawn
  obtain ⟨rfl, rfl⟩ := Prod.mk.inj heq
  rw [Exposed.step_eq hmemory] at hstep
  obtain ⟨hreserved, ops, hruns⟩ := Kernel.step_registers h.reserved hstep
  refine ⟨hreserved, hruns.coherent h.coherent, fun p r q s hp hq hs => ?_⟩
  cases hev : ev.spawns with
  | false =>
    exact h.creator p r q s (process_of_step h.reserved hev hstep hp) hq
      (process_of_step h.reserved hev hstep hs)
  | true =>
    have hcall : ev.call = some .spawn := by
      unfold Event.spawns at hev
      split at hev
      · assumption
      · cases hev
    obtain ⟨pid, hnext, heax, hfree, hregistry⟩ := Kernel.step_spawn hcall h.reserved hstep
    obtain ⟨hcaller, hparents⟩ := hspare hev pid hnext
    have hne : q ≠ 0 := ne_zero_of_liveProcess (registry_process_eq_some.mp hs).1
    rw [hregistry] at hp hs
    simp only [Registry.apply] at hp hs
    rw [if_pos rfl, heax, BitVec.setWidth_setWidth_of_le _ (by decide), BitVec.setWidth_eq]
    by_cases hnew : p = pid
    · rw [if_pos hnew] at hp
      cases hp
      obtain rfl := parent_newProcess hq hne
      rw [if_neg (Ne.symm hcaller)] at hs
      rw [hnew, Function.update_self, (registry_process_eq_some.mp hs).2]
      rfl
    · -- Nobody who was there before keeps the PID that is handed out.
      rw [if_neg hnew] at hp
      obtain ⟨hlive, rfl⟩ := registry_process_eq_some.mp hp
      have hold : q ≠ pid := by
        rintro rfl
        exact hparents p hlive hq
      rw [if_neg hold] at hs
      rw [Function.update_of_ne hnew]
      exact h.creator p _ q s hp hq hs

end Step

/-- A `grant` that is carried out comes from a process with more privileges than the target, or
with the PID of its parent. -/
theorem attemptGrant_checked {info dest : Word} {act : KernelM Unit}
    (h : attemptGrant info dest k = .ok (.ok act) k') :
    ∃ shm, k.shmAt info = some shm ∧ k.liveProcess k.schedulerCurr.pid = true ∧
      ∀ target, target = (k.portToUid shm.dest k.schedulerCurr.pid).pid →
        k.liveProcess target = true ∧
          ((k.blocks k.schedulerCurr.pid).process.priv ≤ (k.blocks target).process.priv →
            (k.blocks target).process.parent = (k.blocks k.schedulerCurr.pid).process.pid) := by
  simp only [attemptGrant, ite_eq_ok, pure_eq_ok, bind_eq_ok, get_bind_apply, derefProcess_eq_ok,
    orThrow_eq_ok, Kernel.processGet_eq_some, reduceCtorEq, false_and, and_false, false_or] at h
  obtain ⟨_, _, hinfo, -, shm, k₁, hfetch, -, -, -, _, _, ⟨⟨htarget, rfl⟩, rfl⟩, _, _,
    ⟨howner, rfl, rfl⟩, hpriv, -⟩ := h
  obtain rfl := virtualIsMapped_same hinfo
  have hinert : Inert k k₁ := (fetchShm_does info).inert.ok hfetch
  have hblocks : k₁.blocks = k.blocks := by rw [hinert.eq]
  rw [hinert.liveProcess, hinert.portToUid] at htarget
  rw [hblocks, hinert.portToUid] at hpriv
  refine ⟨shm, by rw [Kernel.shmAt, hfetch], hinert.liveProcess ▸ howner, ?_⟩
  rintro target rfl
  exact ⟨htarget, fun hle => not_not.mp fun hparent => hpriv ⟨hle, hparent⟩⟩

theorem syscallGrant_attempted {info dest : Word} (h : syscallGrant info dest k = .ok () k')
    (hok : k'.frame.eax = eNONE) : ∃ act t, attemptGrant info dest k = .ok (.ok act) t := by
  have hfinish := Syscall.attempt_finish 0 (.grant info dest)
  rw [Syscall.run] at hfinish
  rw [← hfinish] at h
  obtain ⟨verdict, t, hattempt, h⟩ := bind_eq_ok.mp h
  cases verdict with
  | ok act => exact ⟨act, t, hattempt⟩
  | error code =>
    obtain ⟨-, hcode⟩ := Syscall.attempt_inert 0 (.grant info dest) k t code hattempt
    obtain rfl := modify_eq_ok.mp h
    rw [show code = eNONE from hok] at hcode
    exact absurd hcode (by decide)

/-- In every state reached, a `grant` that succeeds for a caller without more privileges than the
target comes from the incarnation whose `spawn` created the target, as long as no PID of a parent
is handed out again while its children live and the kernel's memory is spared. -/
theorem grant_by_creator {creator : Pid → Option Incarnation} {info dest : Word}
    (frame : IntFrame) (hboot : Booted k₀)
    (hrun : Steps spawnStep (fun s ev _ => ev.Spares s.1 ∧ s.1.SparesParents ev)
      (k₀, fun _ => none) evs (k, creator))
    (hgrant : syscallGrant info dest { k with frame := frame } = .ok () k')
    (hok : k'.frame.eax = eNONE) :
    ∃ shm, Kernel.shmAt { k with frame := frame } info = some shm ∧
      ∀ caller target, caller = k.schedulerCurr.pid → target = (k.portToUid shm.dest caller).pid →
        (k.blocks caller).process.priv ≤ (k.blocks target).process.priv →
        creator target = some (k.incarnation caller) := by
  have hparents : Parents k creator := by
    refine hrun.invariant (I := fun s => Parents s.1 s.2) (fun s ev s' hs hstep hspare => ?_)
      hboot.parents
    exact hs.step hspare.1 hspare.2 hstep
  obtain ⟨act, t, hattempt⟩ := syscallGrant_attempted hgrant hok
  obtain ⟨shm, hshm, hcaller, htarget⟩ := attemptGrant_checked hattempt
  refine ⟨shm, hshm, ?_⟩
  rintro caller target rfl rfl hpriv
  obtain ⟨hlive, hparent⟩ := htarget _ rfl
  have hpid : (k.blocks k.schedulerCurr.pid).process.pid = k.schedulerCurr.pid :=
    hparents.coherent.pid _ _ (registry_process_eq_some.mpr ⟨hcaller, rfl⟩)
  exact hparents.creator _ _ _ _ (registry_process_eq_some.mpr ⟨hlive, rfl⟩)
    ((hparent hpriv).trans hpid) (registry_process_eq_some.mpr ⟨hcaller, rfl⟩)

theorem exists_spawns_of_any {P : Kernel × (Pid → Option Incarnation) → Event →
      Kernel × (Pid → Option Incarnation) → Prop}
    {check : Kernel × (Pid → Option Incarnation) → Event →
      Kernel × (Pid → Option Incarnation) → Bool}
    (hcheck : ∀ s ev s', check s ev s' = true → P s ev s') {ram : Word → BitVec 8}
    {pages : List Word} {p : Kernel × (Pid → Option Incarnation) → Bool}
    (h : ((bootPages ram pages).bind fun k =>
      runEvents (checked spawnStep check) (k, fun _ => none) evs).any p = true) :
    ∃ k₀ k creator, Booted k₀ ∧ Steps spawnStep P (k₀, fun _ => none) evs (k, creator) ∧
      p (k, creator) = true := by
  rw [Option.any_bind, Option.any_eq_true] at h
  obtain ⟨k₀, hboot, hrun⟩ := h
  obtain ⟨⟨k, creator⟩, hsteps, hp⟩ := exists_steps_of_any hcheck hrun
  exact ⟨k₀, k, creator, booted_of_bootPages hboot, hsteps, hp⟩

/-- The condition on `spawn`, computed. -/
def Kernel.sparesParents (k : Kernel) (ev : Event) : Bool :=
  !ev.spawns || match k.nextPid with
    | none => true
    | some pid => pid ≠ k.schedulerCurr.pid && (List.range 1024).all fun t =>
        !k.liveProcess (BitVec.ofNat 10 t) || (k.blocks (BitVec.ofNat 10 t)).process.parent ≠ pid

theorem Kernel.sparesParents_spec (h : k.sparesParents ev = true) : k.SparesParents ev := by
  intro hev pid hnext
  simp only [sparesParents, hev, hnext, Bool.not_true, Bool.false_or, Bool.and_eq_true,
    decide_eq_true_eq, List.all_eq_true, List.mem_range, Bool.or_eq_true, Bool.not_eq_true'] at h
  refine ⟨h.1, fun t ht hparent => ?_⟩
  have hall := h.2 t.toNat t.isLt
  rw [BitVec.ofNat_toNat, BitVec.setWidth_eq, ht] at hall
  exact hall.elim (fun hfalse => by cases hfalse) fun hne => hne hparent

/-- A page that starts with a `struct shm` for itself: the page at 0x1000, addressed to PID 3. -/
def offeredPage (phys : Word) : BitVec 8 :=
  if phys = 0x2000 then 3 else if phys = 0x2005 ∨ phys = 0x2009 then 0x10 else 0

/-- The first process spawns a child and gives it its page. -/
theorem parent_grants_to_child : ∃ k₀ k creator k', Booted k₀ ∧
    Steps spawnStep (fun s ev _ => ev.Spares s.1 ∧ s.1.SparesParents ev) (k₀, fun _ => none)
      [callEvent 0 0 0 0] (k, creator) ∧
    syscallGrant 0x1000 0x20000 k = .ok () k' ∧ k'.frame.eax = eNONE ∧
    creator 3 = some (k.incarnation 2) := by
  have hany : ((bootPages offeredPage [0x2000]).bind fun k =>
      runEvents (checked spawnStep fun s ev _ => ev.harmless && s.1.sparesParents ev)
        (k, fun _ => none) [callEvent 0 0 0 0]).any (fun s =>
          decide (s.1.schedulerCurr.pid = 2) &&
          decide ((s.1.shmAt 0x1000).map Shm.dest = some { pid := 3 }) &&
          decide ((s.1.blocks 2).process.priv ≤ (s.1.blocks 3).process.priv) &&
          ((Syscall.grant 0x1000 0x20000).outcome s.1).any fun k' => k'.frame.eax = eNONE) =
      true := by decide +kernel
  obtain ⟨k₀, k, creator, hboot, hrun, hp⟩ := exists_spawns_of_any
    (P := fun s ev _ => Event.Spares s.1 ev ∧ s.1.SparesParents ev) (fun _ _ _ h => by
      rw [Bool.and_eq_true] at h
      exact ⟨Event.spares_of_harmless h.1, Kernel.sparesParents_spec h.2⟩) hany
  simp only [Bool.and_eq_true, decide_eq_true_eq] at hp
  obtain ⟨⟨⟨hcaller, hdest⟩, hpriv⟩, hgrant⟩ := hp
  obtain ⟨k', hgrant, hok⟩ := (Option.any_eq_true _ _).mp hgrant
  have hcall := Syscall.run_of_outcome hgrant
  obtain ⟨shm, hshm, hcreator⟩ := grant_by_creator k.frame hboot hrun hcall
    (of_decide_eq_true hok)
  rw [show k.shmAt 0x1000 = some shm from hshm] at hdest
  refine ⟨k₀, k, creator, k', hboot, hrun, hcall, of_decide_eq_true hok, ?_⟩
  refine hcreator 2 3 hcaller.symm ?_ hpriv
  rw [Option.some.inj hdest]
  rfl

/-- A `struct shm` at 0x10000 for the page at 0x11000, addressed to a process with a small PID. -/
def offerTo (pid : BitVec 8) : List Event :=
  [callEvent 7 0x10000 0x2000 0, .store 0x10000 pid, .store 0x10005 0x10, .store 0x10006 0x01,
    .store 0x10009 0x10]

/-- The first process spawns a child and is killed by the second, which spawns a process that
gets its PID. The newcomer gives memory to the child of its predecessor. -/
theorem successor_grants_to_orphan : ∃ k₀ k creator k', Booted k₀ ∧
    Steps spawnStep (fun _ _ _ => True) (k₀, fun _ => none)
      ([callEvent 0 0 0 0, callEvent 5 0 0 0, callEvent 4 2 0 0, callEvent 0 0 0 0,
        callEvent 1 2 0x1000 0, callEvent 5 0 0 0] ++ offerTo 4) (k, creator) ∧
    syscallGrant 0x10000 0x20000 k = .ok () k' ∧ k'.frame.eax = eNONE ∧
    (k.shmAt 0x10000).map Shm.dest = some { pid := 4 } ∧
    (k.blocks k.schedulerCurr.pid).process.priv ≤ (k.blocks 4).process.priv ∧
    creator 4 = some (2, 1) ∧ k.incarnation k.schedulerCurr.pid = (2, 2) := by
  have hany : ((bootPages (fun _ => 0) [0x2000, 0x3000]).bind fun k =>
      runEvents (checked spawnStep fun _ _ _ => true) (k, fun _ => none)
        ([callEvent 0 0 0 0, callEvent 5 0 0 0, callEvent 4 2 0 0, callEvent 0 0 0 0,
          callEvent 1 2 0x1000 0, callEvent 5 0 0 0] ++ offerTo 4)).any (fun s =>
          decide ((s.1.shmAt 0x10000).map Shm.dest = some { pid := 4 } ∧
            (s.1.blocks s.1.schedulerCurr.pid).process.priv ≤ (s.1.blocks 4).process.priv ∧
            s.2 4 = some (2, 1) ∧ s.1.incarnation s.1.schedulerCurr.pid = (2, 2)) &&
          ((Syscall.grant 0x10000 0x20000).outcome s.1).any fun k' => k'.frame.eax = eNONE) =
      true := by decide +kernel
  obtain ⟨k₀, k, creator, hboot, hrun, hp⟩ := exists_spawns_of_any (fun _ _ _ _ => trivial) hany
  simp only [Bool.and_eq_true, decide_eq_true_eq] at hp
  obtain ⟨k', hgrant, hok⟩ := (Option.any_eq_true _ _).mp hp.2
  exact ⟨k₀, k, creator, k', hboot, hrun, Syscall.run_of_outcome hgrant, of_decide_eq_true hok,
    hp.1⟩

end Horizon
