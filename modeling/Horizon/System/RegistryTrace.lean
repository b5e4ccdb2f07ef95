import Horizon.System.RegistryView

/-!
# Horizon — every step of the kernel is a run of the registry

The four functions that create and kill are one operation of the registry each. An event does
a sequence of operations, and `Kernel.MayDo` says which: only `spawn` makes a process, only
`svcown` registers a service, and only the lookup of a service masks an interrupt line.
-/

namespace Horizon

open StateError

variable {k k' t : Kernel} {uid v : ThreadUid} {pid p ppid : Pid} {entry : Word}

/-! ## Creating and killing -/

/-- `process_new` after it has taken a slot and cleared its control block. -/
def Kernel.claim (k : Kernel) (pid : Pid) : Kernel :=
  { k with
    blockMap := k.blockMap.set pid.toNat
    blockVersions := Function.update k.blockVersions pid (nextVersion (k.blockVersions pid))
    blocks := Function.update k.blocks pid
      { k.blocks pid with process := {}, messages := (k.blocks pid).wipeMessages } }

/-- The process that `process_new` sets up. -/
def Kernel.newProcess (k : Kernel) (pid ppid : Pid) (entry : Word) (dir : Frame) : Process where
  pid := pid
  version := nextVersion (k.blockVersions pid)
  parent := if ((k.claim pid).processGet ppid).isSome then ppid else 0
  priv := (((k.claim pid).processGet ppid).map Process.priv).getD privDriver
  entry := entry
  addrSpace := dir

theorem processNew_exact (h : processNew ppid entry k = .ok pid k') :
    k.blockMap.test pid.toNat = false ∧ ∃ dir, OnlyMemory ((k.claim pid).setBlock pid
      { (k.claim pid).blocks pid with process := k.newProcess pid ppid entry dir }) k' := by
  simp only [processNew, get_bind_apply, modify_bind_apply, bind_eq_ok, dassertSome,
    orThrow_eq_ok, failIf_eq_ok, pure_eq_ok, modifyProcess] at h
  obtain ⟨⟨index, map⟩, _, ⟨hfound, rfl⟩, _, _, ⟨hindex, rfl⟩, _, k₁, halloc, dir, k₂, hdir, hpid,
    rfl⟩ := h
  subst hpid
  have hlt : index < 1024 := Nat.lt_of_not_le hindex
  have htoNat : (BitVec.ofNat 10 index).toNat = index := by
    rw [BitVec.toNat_ofNat, Nat.mod_eq_of_lt hlt]
  obtain ⟨hfree, rfl⟩ := Bmstack.findAndSet_eq_some hfound
  obtain ⟨h₁⟩ := (virtualAlloc_does _ _ _).onlyMemory.ok halloc
  obtain ⟨h₂⟩ := (liftVm_does pagingDirCreate_does).onlyMemory.ok hdir
  clear halloc hdir
  generalize k₁.vm = vm₁, k₁.touched = log₁ at h₁
  subst h₁
  generalize k₂.vm = vm₂, k₂.touched = log₂ at h₂
  subst h₂
  refine ⟨htoNat.symm ▸ hfree, dir, ⟨?_⟩⟩
  simp only [Kernel.setBlock, Kernel.newProcess, Kernel.claim, Function.update_self,
    Function.update_idem, htoNat]
  rfl

theorem Kernel.liveProcess_claim (hp : 2 ≤ pid.toNat) :
    (k.claim pid).liveProcess p = (decide (p = pid) || k.liveProcess p) := by
  rw [liveProcess, liveProcess, claim, Bmstack.test_set]
  by_cases h : p = pid
  · subst h
    simp [hp]
  · have hne : p.toNat ≠ pid.toNat := fun heq => h (BitVec.eq_of_toNat_eq heq)
    simp [h, hne]

theorem Kernel.two_le_of_reserved (hk : k.Reserved) (h : k.blockMap.test pid.toNat = false) :
    2 ≤ pid.toNat := by
  by_contra hlt
  have hcases : pid.toNat = 0 ∨ pid.toNat = 1 := by omega
  rcases hcases with h0 | h1
  · rw [h0, hk.1] at h
    cases h
  · rw [h1, hk.2] at h
    cases h

/-- The four fields of the new process that others see. -/
theorem Kernel.record_newProcess (hp : 2 ≤ pid.toNat) (dir : Frame) :
    (k.newProcess pid ppid entry dir).record = k.registry.newProcess pid ppid := by
  have hget : (k.claim pid).processGet ppid =
      if ppid = pid then some {} else k.processGet ppid := by
    rw [processGet_eq, liveProcess_claim hp, processGet_eq, claim]
    by_cases h : ppid = pid
    · subst h
      simp
    · simp [h]
  simp only [newProcess, Process.record, Registry.newProcess, hget, registry, Option.isSome_map]
  by_cases h : ppid = pid
  · simp [h, privNone]
  · simp only [h, if_false, false_or, Option.map_map]
    rfl

/-- `process_new` is the registry's `spawn`. -/
theorem processNew_registry (hk : k.Reserved) (h : processNew ppid entry k = .ok pid k') :
    k'.Reserved ∧ k.registry.Valid (.spawn pid ppid) ∧
      k'.registry = k.registry.apply (.spawn pid ppid) := by
  obtain ⟨hfree, dir, hmem⟩ := processNew_exact h
  have hp := Kernel.two_le_of_reserved hk hfree
  have hroutine := hmem.routine
  have hdead : k.liveProcess pid = false := by rw [Kernel.liveProcess, hfree, Bool.and_false]
  refine ⟨hroutine.reserved ⟨?_, ?_⟩, ?_, ?_⟩
  · exact (Bmstack.test_set ..).trans (by rw [hk.1, Bool.or_true])
  · exact (Bmstack.test_set ..).trans (by rw [hk.2, Bool.or_true])
  · show k.registry.process pid = none
    rw [Kernel.registry_process, hdead]
    rfl
  · rw [hroutine.registry]
    -- Everything behind the new control block is memory, which the registry does not see.
    set b := (k.claim pid).setBlock pid
      { (k.claim pid).blocks pid with process := k.newProcess pid ppid entry dir } with hb
    have hlive : ∀ q, b.liveProcess q = (decide (q = pid) || k.liveProcess q) :=
      fun q => Kernel.liveProcess_claim hp
    have hother : ∀ q, q ≠ pid → b.blocks q = k.blocks q := fun q hq =>
      Kernel.blocks_setBlock.trans ((if_neg hq).trans (Function.update_of_ne hq _ _))
    have hself : (b.blocks pid).process = k.newProcess pid ppid entry dir := by
      rw [hb, Kernel.blocks_setBlock, if_pos rfl]
    refine Registry.ext (funext fun q => ?_) (funext fun q => ?_) (funext fun u => ?_)
      (funext fun u => ?_) rfl rfl rfl
    · rw [Kernel.registry_process, hlive]
      by_cases hq : q = pid
      · subst hq
        rw [hself, Kernel.record_newProcess hp]
        simp [Registry.apply]
      · simp [Registry.apply, hq, hother, Kernel.registry_process]
    · exact Function.update_apply ..
    · rw [Kernel.registry_thread, Kernel.live, hlive]
      by_cases hq : u.pid = pid
      · have hnone : (b.blocks u.pid).live u.tid = false := by
          rw [Block.live, hq, hself]
          exact (bitmapTest_eq _ _).trans BitVec.getLsbD_zero
        have hdead' : k.live u = false := by rw [Kernel.live, hq, hdead, Bool.false_and]
        simp [Registry.apply, hnone, Kernel.registry_thread, hdead']
      · simp [Registry.apply, hq, hother, Kernel.registry_thread, Kernel.live, Kernel.thread]
    · by_cases hq : u.pid = pid
      · simp only [Kernel.registry, Registry.apply, hq, hself, if_true]
        rfl
      · simp only [Kernel.registry, Registry.apply, hq, hother _ hq, if_false]

/-- `thread_new` is the registry's `create`, with what it wipes of the threads behind the new one. -/
theorem threadNew_registry (h : threadNew pid entry k = .ok uid k') :
    uid.pid = pid ∧ k'.blockMap = k.blockMap ∧ k.registry.Valid (.create uid) ∧
      k'.registry = k.registry.apply (.create uid) := by
  obtain ⟨index, hindex, rfl, hproc, hfree, hmem⟩ := threadNew_eq_ok h
  have hroutine := hmem.routine
  refine ⟨rfl, hroutine.blockMap, ⟨?_, ?_⟩, ?_⟩
  · rw [Kernel.registry_process_isSome]
    exact hproc
  · rw [Kernel.registry_thread, Kernel.live, hfree, Bool.and_false]
    rfl
  · rw [hroutine.registry]
    set b := (k.blocks pid).addThread pid index entry with hb
    have hother : ∀ q, q ≠ pid → (k.setBlock pid b).blocks q = k.blocks q :=
      fun q hq => Kernel.blocks_setBlock.trans (if_neg hq)
    have hself : (k.setBlock pid b).blocks pid = b := Kernel.blocks_setBlock.trans (if_pos rfl)
    refine Registry.ext (Kernel.registry_process_setBlock rfl) rfl (funext fun u => ?_)
      (funext fun u => ?_) rfl rfl rfl
    · rw [Kernel.registry_thread, Kernel.live_addThread hindex hproc]
      by_cases hu : u = { pid, tid := BitVec.ofNat 6 index }
      · subst hu
        rw [Kernel.thread, hself, hb, Block.threads_addThread_self]
        simp [Registry.apply, Registry.newThread, Thread.record, Kernel.registry,
          toNat_ofNat_tid hindex]
      · -- A live thread of the process with a higher TID may have lost its front.
        rw [decide_eq_false hu, Bool.false_or]
        simp only [Registry.apply, if_neg hu]
        rw [Kernel.registry_thread]
        by_cases hlive : k.live u
        · rw [if_pos hlive, if_pos hlive, Option.map_some, Kernel.thread, Kernel.thread]
          by_cases hq : u.pid = pid
          · have htid : u.tid ≠ BitVec.ofNat 6 index := fun h => hu (ThreadUid.ext hq h)
            rw [hq, hself, hb, Block.threads_addThread hindex htid, wiped]
            simp only [hq, true_and, BitVec.lt_def, toNat_ofNat_tid hindex]
            split
            · rfl
            · rfl
          · rw [hother _ hq, wiped, if_neg fun h => hq h.1]
            rfl
        · rw [if_neg hlive, if_neg hlive]
          rfl
    · rw [Kernel.registry_threadVersion_setBlock]
      by_cases hq : u.pid = pid
      · have htid : u.tid.toNat = index ↔ u = { pid, tid := BitVec.ofNat 6 index } := by
          rw [ThreadUid.ext_iff, ← BitVec.toNat_inj, ← BitVec.toNat_inj, toNat_ofNat_tid hindex, hq]
          simp
        rw [if_pos hq, hb]
        refine (Function.update_apply ..).trans ?_
        simp only [Registry.apply, Kernel.registry, htid, toNat_ofNat_tid hindex, hq]
      · have hne : u ≠ { pid, tid := BitVec.ofNat 6 index } := fun h => hq (by rw [h])
        simp only [Registry.apply, if_neg hne, if_neg hq]

theorem threadKill_registry (h : threadKill uid k = .ok () k') :
    k'.blockMap = k.blockMap ∧ k.registry.Valid (.exit uid) ∧
      k'.registry = k.registry.apply (.exit uid) := by
  obtain ⟨hlive, rfl⟩ := threadKill_eq_ok h
  refine ⟨rfl, Kernel.registry_thread_isSome.trans hlive, ?_⟩
  have hthread : ∀ u, (k.freeThread uid).thread u = k.thread u := by
    intro u
    rw [Kernel.thread, Kernel.freeThread, Kernel.blocks_setBlock]
    split
    · next hu => rw [Kernel.thread, hu]
    · rfl
  refine Registry.ext (Kernel.registry_process_setBlock rfl) rfl (funext fun u => ?_)
    (funext fun u => ?_) rfl rfl rfl
  · rw [Kernel.registry_thread, Kernel.live_freeThread, hthread]
    by_cases hu : u = uid
    · simp [Registry.apply, hu]
    · simp [Registry.apply, hu, Kernel.registry_thread]
  · rw [Kernel.freeThread, Kernel.registry_threadVersion_setBlock]
    simp only [Registry.apply]
    split
    · next hu => simp only [Kernel.registry, hu]
    · rfl

/-- If the live threads still carry their names and versions, none has been damaged. -/
theorem Kernel.keeps_create (hvalid : k.registry.Valid (.create uid))
    (hregistry : k'.registry = k.registry.apply (.create uid))
    (hrecord : ∀ v, k.live v = true → (k'.thread v).record = (k.thread v).record) :
    k.registry.Keeps (.create uid) := by
  intro v t hv
  have hlive : k.live v = true := by
    rw [← registry_thread_isSome, hv]
    rfl
  have hne : v ≠ uid := by
    rintro rfl
    rw [hvalid.2] at hv
    cases hv
  have hthread := congrFun (congrArg Registry.thread hregistry) v
  simp only [Registry.apply, if_neg hne, hv, Option.map_some] at hthread
  rw [registry_thread, hrecord v hlive] at hthread
  rw [registry_thread, if_pos hlive] at hv
  split at hthread
  · rw [← Option.some.inj hthread, Option.some.inj hv]
  · cases hthread

/-! `process_kill` frees the threads one by one; what they leave behind is not seen again. -/

/-- Nothing but the thread bitmap and count of one process has changed. -/
structure Empties (pid : Pid) (k k' : Kernel) : Prop where
  block : ∀ p, p ≠ pid → k'.blocks p = k.blocks p
  record : (k'.blocks pid).process.record = (k.blocks pid).process.record
  versions : (k'.blocks pid).process.threadInfo.versions =
    (k.blocks pid).process.threadInfo.versions
  blockMap : k'.blockMap = k.blockMap
  blockVersions : k'.blockVersions = k.blockVersions
  services : k'.serviceIds = k.serviceIds
  handle : k'.irqHandle = k.irqHandle
  enabled : k'.irqEnabled = k.irqEnabled

instance : Std.Refl (Empties pid) where
  refl _ := ⟨fun _ _ => rfl, rfl, rfl, rfl, rfl, rfl, rfl, rfl⟩

instance : IsTrans Kernel (Empties pid) where
  trans _ _ _ h₁ h₂ :=
    ⟨fun p hp => (h₂.block p hp).trans (h₁.block p hp), h₂.record.trans h₁.record,
      h₂.versions.trans h₁.versions, h₂.blockMap.trans h₁.blockMap,
      h₂.blockVersions.trans h₁.blockVersions, h₂.services.trans h₁.services,
      h₂.handle.trans h₁.handle, h₂.enabled.trans h₁.enabled⟩

theorem killThreads_empties (pid : Pid) (l : List Tid) :
    Ensures (Empties pid) (killThreads pid l) := by
  induction l with
  | nil => exact .pure _
  | cons tid rest ih =>
    refine .bind .get fun _ => .bind (.runIf ?_) fun _ => ih
    refine .bind .get fun _ => .bind (.orThrow _ _) fun _ =>
      .bind (.ite (.pure _) (.throw _)) fun _ => .modify fun k => ?_
    exact ⟨fun p hp => Kernel.blocks_setBlock.trans (if_neg hp),
      by rw [Kernel.blocks_setBlock, if_pos rfl]; rfl,
      by rw [Kernel.blocks_setBlock, if_pos rfl], rfl, rfl, rfl, rfl, rfl⟩

/-- `process_kill` is the registry's `kill`: the threads first, then the slot. -/
theorem processKill_registry (hk : k.Reserved) (h : processKill pid k = .ok () k') :
    k'.Reserved ∧ k.registry.Valid (.kill pid) ∧ k'.registry = k.registry.apply (.kill pid) := by
  rw [processKill, get_bind_apply] at h
  obtain ⟨target, k₁, hproc, h⟩ := bind_eq_ok.mp h
  rw [dassertSome, orThrow_eq_ok, Kernel.processGet_eq_some] at hproc
  obtain ⟨⟨hlive, -⟩, rfl⟩ := hproc
  obtain ⟨_, k₂, hkill, h⟩ := bind_eq_ok.mp h
  rw [modify_bind_apply] at h
  obtain ⟨_, k₃, hdir, hunmap⟩ := bind_eq_ok.mp h
  rw [get_bind_apply] at hunmap
  -- Killing the threads touches the block of this process and nothing else.
  have hempty := (killThreads_empties pid allTids).ok hkill
  have hroutine : Routine (k₂.freeProcess pid) k' :=
    IsTrans.trans _ _ _ ((liftVm_does (pagingDirDestroy_does _)).routine.ok hdir)
      ((virtualUnmap_does _ _ _).routine.ok hunmap)
  have hp : 2 ≤ pid.toNat := by
    rw [Kernel.liveProcess, Bool.and_eq_true, decide_eq_true_eq] at hlive
    exact hlive.1
  have hmap : k₂.blockMap = k.blockMap := hempty.blockMap
  refine ⟨hroutine.reserved ?_, Kernel.registry_process_isSome.trans hlive, ?_⟩
  · rw [Kernel.Reserved, Kernel.freeProcess, Bmstack.test_clear, Bmstack.test_clear, hmap, hk.1,
      hk.2, decide_eq_false (by omega), decide_eq_false (by omega)]
    exact ⟨rfl, rfl⟩
  · have hlive₂ : ∀ q, k₂.liveProcess q = k.liveProcess q := fun q => by
      rw [Kernel.liveProcess, Kernel.liveProcess, hmap]
    rw [hroutine.registry]
    refine Registry.ext (funext fun q => ?_) hempty.blockVersions (funext fun u => ?_)
      (funext fun u => ?_) hempty.services hempty.handle hempty.enabled
    · rw [Kernel.registry_process, Kernel.liveProcess_freeProcess, hlive₂]
      by_cases hq : q = pid
      · simp [Registry.apply, hq]
      · have hblock : (k₂.freeProcess pid).blocks q = k.blocks q := hempty.block q hq
        simp [Registry.apply, hq, Kernel.registry_process, hblock]
    · rw [Kernel.registry_thread, Kernel.live, Kernel.liveProcess_freeProcess, hlive₂]
      by_cases hq : u.pid = pid
      · simp [Registry.apply, hq]
      · have hblock : (k₂.freeProcess pid).blocks u.pid = k.blocks u.pid := hempty.block _ hq
        simp [Registry.apply, hq, Kernel.registry_thread, hblock, Kernel.live, Kernel.thread]
    · by_cases hq : u.pid = pid
      · have hversions := congrFun hempty.versions u.tid.toNat
        rw [← hq] at hversions
        exact hversions
      · exact congrArg (fun b : Block => b.process.threadInfo.versions u.tid.toNat)
          (hempty.block _ hq)

/-- The slot that `process_new` takes next. -/
def Kernel.nextPid (k : Kernel) : Option Pid :=
  k.blockMap.findAndSet.map fun found => BitVec.ofNat 10 found.1

/-- The slot that `thread_new` takes next. -/
def Kernel.nextTid (k : Kernel) (pid : Pid) : Option Tid :=
  (bitmapFindAndSet (k.blocks pid).process.threadWords processThreadMax).1.map (BitVec.ofNat 6)

theorem nextPid_of_ok (h : processNew ppid entry k = .ok pid k') : k.nextPid = some pid := by
  simp only [processNew, get_bind_apply, modify_bind_apply, bind_eq_ok, dassertSome,
    orThrow_eq_ok, failIf_eq_ok, pure_eq_ok] at h
  obtain ⟨⟨index, map⟩, _, ⟨hfound, rfl⟩, _, _, ⟨-, rfl⟩, _, k₁, -, dir, k₂, -, _, _, -, hpid,
    -⟩ := h
  rw [Kernel.nextPid, hfound, ← hpid]
  rfl

theorem nextTid_of_ok (h : threadNew pid entry k = .ok uid k') : k.nextTid pid = some uid.tid := by
  simp only [threadNew, get_bind_apply, modify_bind_apply, bind_eq_ok, dassertSome,
    orThrow_eq_ok, failIf_eq_ok, pure_eq_ok, modifyProcess, modifyThread,
    Kernel.processGet_eq_some] at h
  obtain ⟨_, _, ⟨⟨-, rfl⟩, rfl⟩, index, _, ⟨hfound, rfl⟩, _, _, -, _, k₁, -, huid, -⟩ := h
  rw [Kernel.nextTid, hfound, ← huid]
  rfl

theorem Kernel.nextTid_congr
    (h : (k'.blocks pid).process.threadInfo = (k.blocks pid).process.threadInfo) :
    k'.nextTid pid = k.nextTid pid := by
  have hwords : (k'.blocks pid).process.threadWords = (k.blocks pid).process.threadWords := by
    unfold Process.threadWords
    rw [h]
  rw [nextTid, nextTid, hwords]

/-- The first thread of a process gets slot 0. -/
theorem Kernel.nextTid_first {tid : Tid} (hproc : k.liveProcess pid = true)
    (hempty : ∀ v, v.pid = pid → k.live v = false) (h : k.nextTid pid = some tid) : tid = 0 := by
  obtain ⟨index, hfound, rfl⟩ := Option.map_eq_some_iff.mp h
  rcases Nat.eq_zero_or_pos index with rfl | hpos
  · rfl
  · have hset := bitmapFindAndSet_least (Prod.ext hfound rfl) hpos
    have hfree := hempty { pid, tid := 0 } rfl
    rw [live, hproc, Bool.true_and] at hfree
    exact absurd (hset.symm.trans hfree) (by decide)

/-! ## Services -/

/-- What `service_get` returns. -/
def Kernel.servicePort (k : Kernel) (svc : Nat) : IpcPort :=
  if k.portToUid (k.serviceIds svc) 0 ≠ 0 then k.serviceIds svc else {}

def Kernel.muted (k : Kernel) (line : Nat) : Kernel :=
  { k with
    irqHandle := Function.update k.irqHandle line .none
    irqEnabled := Function.update k.irqEnabled line false }

/-- What `service_get` leaves behind. -/
def Kernel.lookedUp (k : Kernel) (svc : Nat) : Kernel :=
  if k.portToUid (k.serviceIds svc) 0 = 0 ∧ svc < svcImax then k.muted svc else k

theorem serviceGet_apply {svc : Nat} (h : svc < svcMax) :
    serviceGet svc k = .ok (k.servicePort svc) (k.lookedUp svc) := by
  simp only [serviceGet, dassert, if_pos h, pure_bind, get_bind_apply, Kernel.servicePort,
    Kernel.lookedUp]
  by_cases hport : k.portToUid (k.serviceIds svc) 0 = 0
  · by_cases hline : svc < svcImax
    · simp only [hport, hline, ne_eq, not_true_eq_false, if_false, if_true, and_self]
      rfl
    · simp only [hport, hline, ne_eq, not_true_eq_false, if_false, and_false]
      rfl
  · simp only [hport, ne_eq, not_false_eq_true, if_true, false_and, if_false]
    rfl

theorem serviceGet_eq {svc : Nat} {port : IpcPort} (h : serviceGet svc k = .ok port k') :
    svc < svcMax ∧ port = k.servicePort svc ∧ k' = k.lookedUp svc := by
  have hlt : svc < svcMax := by
    obtain ⟨_, _, hassert, -⟩ := bind_eq_ok.mp h
    exact (dassert_eq_ok.mp hassert).1
  rw [serviceGet_apply hlt] at h
  cases h
  exact ⟨hlt, rfl, rfl⟩

theorem Kernel.lookedUp_registry (k : Kernel) (svc : Nat) : (k.lookedUp svc).registry = k.registry ∨
      k.registry.Valid (.mute svc) ∧ (k.lookedUp svc).registry = k.registry.apply (.mute svc) := by
  unfold lookedUp
  split
  · next h =>
    refine Or.inr ⟨⟨h.2, (registry_resolve _ _).trans h.1⟩, ?_⟩
    refine Registry.ext rfl rfl rfl rfl rfl (funext fun n => ?_) (funext fun n => ?_)
    · exact Function.update_apply ..
    · exact Function.update_apply ..
  · exact Or.inl rfl

theorem Kernel.lookedUp_blockMap (k : Kernel) (svc : Nat) :
    (k.lookedUp svc).blockMap = k.blockMap := by
  unfold lookedUp
  split
  · rfl
  · rfl

/-- An all-zero port names nobody, so it is what an unowned service has. -/
theorem Kernel.servicePort_eq_zero {svc : Nat} :
    k.servicePort svc = {} ↔ k.portToUid (k.serviceIds svc) 0 = 0 := by
  unfold servicePort
  split
  · next h =>
    refine ⟨fun hzero => ?_, fun hzero => absurd hzero h⟩
    rw [hzero]
    rfl
  · next h => exact ⟨fun _ => not_not.mp h, fun _ => rfl⟩

theorem serviceRegister_registry {svc : Nat} (h : serviceRegister svc uid k = .ok () k') :
    svc < svcMax ∧ k'.blockMap = k.blockMap ∧ k.registry.Valid (.register svc uid) ∧
      k'.registry = k.registry.apply (.register svc uid) := by
  simp only [serviceRegister, bind_eq_ok, dassert_eq_ok, get_bind_apply, modify_bind_apply,
    dassertSome_threadGet_eq_ok, portFromUid_eq_ok] at h
  obtain ⟨_, _, ⟨-, rfl⟩, _, t, hget, _, _, ⟨hzero, rfl⟩, _, _, ⟨hlive, -, rfl⟩, _, _,
    ⟨-, rfl, rfl⟩, h⟩ := h
  obtain ⟨hlt, rfl, rfl⟩ := serviceGet_eq hget
  have hnone := Kernel.servicePort_eq_zero.mp hzero
  by_cases hline : svc < svcImax
  · have hlook : k.lookedUp svc = k.muted svc := if_pos ⟨hnone, hline⟩
    rw [hlook] at hlive h
    have hport : k.registry.port uid = some (k.portOfUid uid) := Kernel.registry_port hlive
    rw [if_pos hline, irqSet, modify_eq_ok] at h
    subst h
    refine ⟨hlt, rfl, ⟨by rw [hport]; rfl, (Kernel.registry_resolve _ _).trans hnone⟩, ?_⟩
    refine Registry.ext rfl rfl rfl rfl (funext fun s => ?_) (funext fun n => ?_)
      (funext fun n => ?_)
    · simp only [Registry.apply, hport, Option.getD_some]
      exact Function.update_apply ..
    · simp only [Registry.apply, Kernel.registry, Kernel.muted, Function.update_idem,
        Function.update_apply, hline, and_true]
    · simp only [Registry.apply, Kernel.registry, Kernel.muted, Function.update_idem,
        Function.update_apply, hline, and_true]
  · have hlook : k.lookedUp svc = k := if_neg fun h => hline h.2
    rw [hlook] at hlive h
    have hport : k.registry.port uid = some (k.portOfUid uid) := Kernel.registry_port hlive
    rw [if_neg hline, pure_eq_ok] at h
    obtain ⟨-, rfl⟩ := h
    refine ⟨hlt, rfl, ⟨by rw [hport]; rfl, (Kernel.registry_resolve _ _).trans hnone⟩, ?_⟩
    refine Registry.ext rfl rfl rfl rfl (funext fun s => ?_) (funext fun n => ?_)
      (funext fun n => ?_)
    · simp only [Registry.apply, hport, Option.getD_some]
      exact Function.update_apply ..
    · simp only [Registry.apply, hline, and_false, if_false]
      rfl
    · simp only [Registry.apply, hline, and_false, if_false]
      rfl

/-! ## Events -/

/-- The registry has changed by allowed operations. -/
structure Registers (A : RegistryOp → Prop) (k k' : Kernel) : Prop where
  reserved : k'.Reserved
  runs : ∃ ops, Registry.Runs (fun _ => A) k.registry ops k'.registry

variable {A : RegistryOp → Prop}

theorem Routine.registers (h : Routine k k') (hk : k.Reserved) : Registers A k k' :=
  ⟨h.reserved hk, [], h.registry ▸ .nil _⟩

theorem Registers.trans (h₁ : Registers A k t) (h₂ : Registers A t k') : Registers A k k' := by
  obtain ⟨-, ops₁, hr₁⟩ := h₁
  obtain ⟨hres, ops₂, hr₂⟩ := h₂
  exact ⟨hres, _, hr₁.append hr₂⟩

theorem Registers.one {op : RegistryOp} (hk' : k'.Reserved) (hvalid : k.registry.Valid op)
    (hA : A op) (h : k'.registry = k.registry.apply op) : Registers A k k' :=
  ⟨hk', [op], .cons rfl ⟨hvalid, hA⟩ (h ▸ .nil _)⟩

/-- Every outcome of `x` is accounted for by operations of the registry. -/
def Tracks {α : Type} (A : RegistryOp → Prop) (x : KernelM α) (k : Kernel) : Prop :=
  k.Reserved → Post (fun _ k' => Registers A k k')
    (fun e k' => e = .pageFault → Registers A k k') (x k)

namespace Tracks

variable {α β : Type} {x : KernelM α} {f : α → KernelM β}

theorem routine (hx : Ensures Routine x) : Tracks A x k := fun hk =>
  .of_ensures hx (fun _ _ h => h.registers hk) fun _ _ h _ => h.registers hk

theorem bind (hx : Tracks A x k) (hf : ∀ a t, x k = .ok a t → Tracks A (f a) t) :
    Tracks A (x >>= f) k := by
  intro hk
  have hpost := hx hk
  refine Post.bind (Q := fun a t => x k = .ok a t ∧ Registers A k t) ?_ fun a t ⟨h, ht⟩ => ?_
  · refine .of_ok (fun a t h => ⟨h, ?_⟩) fun e t h => ?_
    · rwa [h] at hpost
    · rwa [h] at hpost
  · exact (hf a t h ht.reserved).mono (fun _ _ h' => ht.trans h')
      fun _ _ h' he => ht.trans (h' he)

theorem skip (hx : Ensures Routine x) (hf : ∀ a t, x k = .ok a t → Tracks A (f a) t) :
    Tracks A (x >>= f) k := (routine hx).bind hf

theorem ret (val : Word) : Tracks A (syscallReturnSet val) k :=
  routine (syscallReturnSet_does val).routine

theorem get {g : Kernel → KernelM β} (h : Tracks A (g k) k) : Tracks A (get >>= g) k := h

theorem ite {c : Prop} [Decidable c] {y : KernelM α} (hx : c → Tracks A x k)
    (hy : ¬c → Tracks A y k) : Tracks A (if c then x else y) k := fun hk =>
  .ite (fun hc => hx hc hk) fun hc => hy hc hk

/-- A function without page faults is known by its results. -/
theorem of_ok (hx : Never .pageFault x)
    (h : ∀ a t, k.Reserved → x k = .ok a t → Registers A k t) : Tracks A x k := fun hk =>
  .of_ok (fun a t ht => h a t hk ht) fun e t ht he => by
    subst he
    exact absurd ht (hx k t)

end Tracks

theorem threadKill_tracks (hA : A (.exit uid)) : Tracks A (threadKill uid) k :=
  .of_ok (threadKill_does uid).noFault fun _ t hk h => by
    obtain ⟨hmap, hvalid, hregistry⟩ := threadKill_registry h
    exact .one (by rwa [Kernel.Reserved, hmap]) hvalid hA hregistry

theorem purgeAndKill_tracks (hA : A (.kill pid)) : Tracks A (purgeAndKill pid) k :=
  .skip (schedulerPurge_does pid).routine fun _ t _ =>
    .of_ok (processKill_does pid).noFault fun _ t' ht h => by
      obtain ⟨hres, hvalid, hregistry⟩ := processKill_registry ht h
      exact .one hres hvalid hA hregistry

theorem threadNew_tracks (hA : ∀ uid, A (.create uid)) : Tracks A (threadNew pid entry) k :=
  .of_ok (threadNew_does pid entry).noFault fun uid t hk h => by
    obtain ⟨-, hmap, hvalid, hregistry⟩ := threadNew_registry h
    exact .one (by rwa [Kernel.Reserved, hmap]) hvalid (hA uid) hregistry

theorem serviceGet_tracks {svc : Nat} (hA : A (.mute svc)) : Tracks A (serviceGet svc) k :=
  .of_ok (serviceGet_does svc).noFault fun _ t hk h => by
    obtain ⟨-, -, rfl⟩ := serviceGet_eq h
    have hres : (k.lookedUp svc).Reserved := by rwa [Kernel.Reserved, k.lookedUp_blockMap]
    rcases k.lookedUp_registry svc with hsame | ⟨hvalid, hmute⟩
    · exact ⟨hres, [], hsame ▸ .nil _⟩
    · exact .one hres hvalid hA hmute

/-- The numbers above the interrupt lines are only looked up. -/
theorem serviceGet_routine {svc : Nat} (h : ¬svc < svcImax) : Ensures Routine (serviceGet svc) :=
  .bind (dassert_does _).routine fun _ => .bind .get fun _ => .ite (.pure _) <| by
    rw [if_neg h]
    exact .pure _

theorem notifyProcmgr_routine (pid : Word) : Ensures Routine (notifyProcmgr pid) :=
  .bind (serviceGet_routine (by decide)) fun _ => .ite (.pure _) (internalKsend_does _ _ _).routine

theorem killRunning_tracks (hexit : ∀ u, A (.exit u)) (hkill : ∀ p, A (.kill p)) :
    Tracks A killRunning k := by
  refine .get (.bind ?_ fun _ t _ => .routine (.ite (.pure _) (notifyProcmgr_routine _)))
  refine .get (.skip (.runIf schedulerLock_does.routine) fun _ t _ => .bind ?_ fun _ _ _ =>
    .routine unlockIfLocked_does.routine)
  exact .ite (fun _ => purgeAndKill_tracks (hkill _)) fun _ =>
    .skip (schedulerRemove_does _).routine fun _ _ _ => threadKill_tracks (hexit _)

theorem syscallSpawn_tracks (hA : ∀ pid, A (.spawn pid k.schedulerCurr.pid)) :
    Tracks A syscallSpawn k := by
  refine .get (.bind (.of_ok (processNew_does _ _).noFault fun pid t hk h => ?_) fun _ _ _ =>
    .ret _)
  obtain ⟨hres, hvalid, hregistry⟩ := processNew_registry hk h
  exact .one hres hvalid (hA pid) hregistry

theorem syscallLaunch_tracks {pid : BitVec 16} (hA : ∀ u, A (.create u)) :
    Tracks A (syscallLaunch pid entry) k := by
  refine .get (.get (.get (.ite (fun _ => .ret _) fun _ => ?_)))
  refine .skip (.orThrow _ _) fun _ _ _ => .ite (fun _ => .ret _) fun _ => ?_
  refine .skip (.orThrow _ _) fun _ _ _ => .ite (fun _ => .ret _) fun _ => ?_
  refine .skip (Does.change fun _ => .entry ..).routine fun _ _ _ => ?_
  exact .bind (threadNew_tracks hA) fun _ _ _ => .skip (schedulerAdd_does _).routine fun _ _ _ => .ret _

theorem syscallDispatch_tracks {stack : Word} (hA : ∀ u, A (.create u)) :
    Tracks A (syscallDispatch entry stack) k :=
  .get (.bind (threadNew_tracks hA) fun _ _ _ => .routine (.bind (derefThread_does _).routine fun _ =>
    .bind (Does.change fun _ => .task ..).routine fun _ => .bind (schedulerAdd_does _).routine fun _ =>
      (syscallReturnSet_does _).routine))

theorem syscallRelease_tracks {tid : BitVec 8} (hexit : ∀ u, A (.exit u)) :
    Tracks A (syscallRelease tid) k := by
  refine .get (.ite (fun _ => .ret _) fun _ => .get ?_)
  refine .ite (fun _ => .ret _) fun _ => ?_
  exact .skip (.runIf schedulerLock_does.routine) fun _ _ _ => .bind (threadKill_tracks (hexit _))
    fun _ _ _ => .routine unlockOrReturn_does.routine

theorem syscallKill_tracks {pid : BitVec 16} (hkill : ∀ p, A (.kill p)) :
    Tracks A (syscallKill pid) k := by
  refine .get (.get (.skip (killTarget_does _ _).routine fun _ _ _ => .get ?_))
  refine .ite (fun _ => .ret _) fun _ => ?_
  refine .skip (.orThrow _ _) fun _ _ _ => .skip (.orThrow _ _) fun _ _ _ => ?_
  refine .ite (fun _ => .ret _) fun _ => ?_
  refine .skip (.runIf schedulerLock_does.routine) fun _ _ _ => .bind (purgeAndKill_tracks (hkill _))
    fun _ _ _ => .routine (.bind unlockOrReturn_does.routine fun _ => notifyProcmgr_routine _)

theorem syscallSvcown_tracks {svc : Word} (hmute : A (.mute svc.toNat))
    (hregister : A (.register svc.toNat k.schedulerCurr)) : Tracks A (syscallSvcown svc) k := by
  refine .ite (fun _ => .ret _) fun _ =>
    .bind (serviceGet_tracks hmute) fun _ t hget =>
      .ite (fun _ => .ret _) fun _ => .get ?_
  refine .skip (derefProcess_does _).routine fun _ s hderef =>
    .ite (fun _ => .ret _) fun _ =>
      .bind (.of_ok (serviceRegister_does _ _).noFault fun _ s' hs h => ?_) fun _ _ _ =>
        .ret _
  have hcurr : t.schedulerCurr = k.schedulerCurr := by
    have hstill := (serviceGet_does _).still.ok hget
    rw [Kernel.schedulerCurr, Kernel.schedulerCurr, hstill.active, hstill.locked]
  obtain ⟨-, hmap, hvalid, hregistry⟩ := serviceRegister_registry h
  rw [hcurr] at hvalid hregistry
  exact .one (by rwa [Kernel.Reserved, hmap]) hvalid hregister hregistry

theorem syscallSvcid_tracks {svc : Word} (hmute : A (.mute svc.toNat)) :
    Tracks A (syscallSvcid svc) k :=
  .ite (fun _ => .ret _) fun _ =>
    .bind (serviceGet_tracks hmute) fun _ _ _ => .ret _

theorem runIrq_tracks {line : Nat} (hmute : k.irqHandle line = .irqCallback → A (.mute line)) :
    Tracks A (runIrq line) k := by
  refine .get (.ite (fun _ => ?_) fun _ => .routine (.pure _))
  cases hhandle : k.irqHandle line with
  | none => exact .routine (.pure _)
  | timerTick => exact .routine timerTick_does.routine
  | irqCallback =>
    exact .bind (serviceGet_tracks (hmute hhandle)) fun _ _ _ =>
      .routine (.ite (.pure _) (internalKsend_does _ _ _).routine)

/-- The interrupt lines whose owner an event looks up. -/
def Kernel.LooksUp (k : Kernel) (ev : Event) (line : Nat) : Prop :=
  (∃ svc : Word, (ev.call = some (.svcown svc) ∨ ev.call = some (.svcid svc)) ∧
    line = svc.toNat) ∨
  ∃ frame irq, ev = .irq frame irq ∧ line = irq.toNat ∧ k.irqHandle line = .irqCallback

/-- The operations an event may do. -/
def Kernel.MayDo (k : Kernel) (ev : Event) : RegistryOp → Prop
  | .spawn _ parent => ev.call = some .spawn ∧ parent = k.schedulerCurr.pid
  | .create _ => ev.creates = true
  | .exit _ => ev.creates = false
  | .kill _ => ev.creates = false
  | .register svc uid =>
      (∃ n : Word, ev.call = some (.svcown n) ∧ svc = n.toNat) ∧ uid = k.schedulerCurr
  | .mute line => k.LooksUp ev line

section Step

variable {ev : Event}

theorem run_tracks {call : Syscall} {input : Word} (hev : ev.call = some call)
    (hcurr : t.schedulerCurr = k.schedulerCurr) : Tracks (k.MayDo ev) (call.run input) t := by
  cases call with
  | spawn => exact syscallSpawn_tracks fun _ => ⟨hev, by rw [hcurr]⟩
  | launch pid entry => exact syscallLaunch_tracks fun _ => by simp [Kernel.MayDo, Event.creates, hev]
  | dispatch entry stack =>
    exact syscallDispatch_tracks fun _ => by simp [Kernel.MayDo, Event.creates, hev]
  | release tid => exact syscallRelease_tracks fun _ => by simp [Kernel.MayDo, Event.creates, hev]
  | kill pid => exact syscallKill_tracks fun _ => by simp [Kernel.MayDo, Event.creates, hev]
  | yield => exact .routine syscallYield_does.routine
  | wait sender => exact .routine (syscallWait_does _).routine
  | vmap dest size => exact .routine (syscallVmap_does _ _).routine
  | pmap dest src size => exact .routine (syscallPmap_does _ _ _).routine
  | unmap addr size => exact .routine (syscallUnmap_does _ _).routine
  | grant info dest => exact .routine (syscallGrant_does _ _).routine
  | share info => exact .routine (syscallShare_does _).routine
  | accept sid dest size => exact .routine (syscallAccept_does _ _ _).routine
  | send src => exact .routine (syscallSend_does _).routine
  | recv dest => exact .routine (syscallRecv_does _).routine
  | peek => exact .routine syscallPeek_does.routine
  | drop info => exact .routine (syscallDrop_does _).routine
  | svcown svc =>
    exact syscallSvcown_tracks (Or.inl ⟨svc, Or.inl hev, rfl⟩) ⟨⟨svc, hev, rfl⟩, hcurr⟩
  | svcid svc => exact syscallSvcid_tracks (Or.inl ⟨svc, Or.inr hev, rfl⟩)
  | sysio action arg data => exact .ret _

theorem handle_tracks (ev : Event) : Tracks (k.MayDo ev) ev.handle k := by
  cases ev with
  | syscall frame input =>
    refine .skip (enter_does _).routine fun _ t h => ?_
    obtain rfl := modify_eq_ok.mp h
    cases hcall : Syscall.decode frame with
    | none => exact .routine (.pure _)
    | some call => exact run_tracks hcall rfl
  | irq frame line =>
    refine .skip (enter_does _).routine fun _ t h => runIrq_tracks fun hhandle => ?_
    obtain rfl := modify_eq_ok.mp h
    exact Or.inr ⟨frame, line, rfl, rfl, hhandle⟩
  | userfault frame =>
    exact .skip (enter_does _).routine fun _ _ _ => killRunning_tracks (fun _ => rfl) fun _ => rfl
  | pagefault frame =>
    exact .skip (enter_does _).routine fun _ _ _ => killRunning_tracks (fun _ => rfl) fun _ => rfl
  | ksend port code args => exact .routine (internalKsend_does _ _ _).routine
  | store addr byte => exact .routine (userStore_does _ _).routine

/-- An event that creates a thread does not meet page faults. -/
theorem handle_noFault (h : ev.creates = true) : Never .pageFault ev.handle := by
  cases ev with
  | syscall frame input =>
    refine .bind (.modify _) fun _ => ?_
    cases hcall : Syscall.decode frame with
    | none => simp [Event.creates, Event.call, hcall] at h
    | some call =>
      cases call with
      | launch pid entry => exact (syscallLaunch_does _ _).noFault
      | dispatch entry stack => exact (syscallDispatch_does _ _).noFault
      | _ => simp [Event.creates, Event.call, hcall] at h
  | _ => cases h

/-- One event is a run of the registry by operations that the event may do. -/
theorem Kernel.step_registers (hk : k.Reserved) (h : k.step ev = some k') :
    Registers (k.MayDo ev) k k' := by
  cases hcreate : ev.creates with
  | true =>
    have hok := recover_of_noFault (handle_noFault hcreate k) h
    have hpost := handle_tracks ev hk
    rwa [hok] at hpost
  | false =>
    refine recover_post (handle_tracks ev hk) (fun t ht => ?_) h
    have hkill : Tracks (k.MayDo ev) killRunning t :=
      killRunning_tracks (fun _ => hcreate) fun _ => hcreate
    exact (hkill ht.reserved).mono (fun _ _ h' => ht.trans h') fun _ _ h' he => ht.trans (h' he)

end Step

/-! Creating events do one operation at most. -/

theorem step_of_call {call : Syscall} {ev : Event} (hcall : ev.call = some call)
    (h : k.step ev = some k') :
    ∃ frame input, recover faultFuel (call.run input { k with frame := frame }) = some k' := by
  cases ev with
  | syscall frame input =>
    refine ⟨frame, input, ?_⟩
    have hdecode : Syscall.decode frame = some call := hcall
    rw [Kernel.step, Event.handle, enter, modify_bind_apply, hdecode] at h
    exact h
  | _ => cases hcall

theorem Kernel.step_spawn {ev : Event} (hcall : ev.call = some .spawn) (hk : k.Reserved)
    (h : k.step ev = some k') : ∃ pid, k.nextPid = some pid ∧ k'.frame.eax = pid.setWidth 32 ∧
      k.registry.Valid (.spawn pid k.schedulerCurr.pid) ∧
      k'.registry = k.registry.apply (.spawn pid k.schedulerCurr.pid) := by
  obtain ⟨frame, input, h⟩ := step_of_call hcall h
  have hok := recover_of_noFault (syscallSpawn_does.noFault _) h
  simp only [syscallSpawn, get_bind_apply, bind_eq_ok] at hok
  obtain ⟨pid, t, hnew, hret⟩ := hok
  obtain rfl := modify_eq_ok.mp hret
  have hk₁ : Kernel.Reserved { k with frame := frame } := hk
  obtain ⟨-, hvalid, hregistry⟩ := processNew_registry hk₁ hnew
  exact ⟨pid, nextPid_of_ok (k := { k with frame := frame }) hnew, rfl, hvalid, hregistry⟩

theorem syscallLaunch_registry {pid : BitVec 16} (h : syscallLaunch pid entry k = .ok () k') :
    k'.registry = k.registry ∨ ∃ uid, k.nextTid uid.pid = some uid.tid ∧
      k.registry.Valid (.create uid) ∧ k'.registry = k.registry.apply (.create uid) := by
  have hret : ∀ {t val}, syscallReturnSet val t = .ok () k' → k'.registry = t.registry :=
    fun h => ((syscallReturnSet_does _).routine.ok h).registry
  simp only [syscallLaunch, get_bind_apply, ite_eq_ok, bind_eq_ok, orThrow_eq_ok] at h
  rcases h with ⟨-, h⟩ | ⟨-, _, _, ⟨-, rfl⟩, h⟩
  · exact Or.inl (hret h)
  rcases h with ⟨-, h⟩ | ⟨-, _, _, ⟨-, rfl⟩, h⟩
  · exact Or.inl (hret h)
  rcases h with ⟨-, h⟩ | ⟨-, _, t₁, hentry, uid, t₂, hnew, _, t₃, hadd, h⟩
  · exact Or.inl (hret h)
  have hsame : t₁.registry = k.registry :=
    ((Does.change fun _ => .entry ..).routine.ok hentry).registry
  have hnext := nextTid_of_ok hnew
  obtain ⟨hpid, -, hvalid, hregistry⟩ := threadNew_registry hnew
  rw [hsame] at hvalid hregistry
  refine Or.inr ⟨uid, ?_, hvalid, ?_⟩
  · obtain rfl := modify_eq_ok.mp hentry
    rw [hpid, ← hnext]
    refine (Kernel.nextTid_congr ?_).symm
    rw [Kernel.blocks_setBlock, if_pos rfl]
  · rw [hret h, ((schedulerAdd_does _).routine.ok hadd).registry, hregistry]

theorem syscallDispatch_registry {stack : Word} (h : syscallDispatch entry stack k = .ok () k') :
    ∃ uid, k.nextTid uid.pid = some uid.tid ∧ k.registry.Valid (.create uid) ∧
      k'.registry = k.registry.apply (.create uid) := by
  simp only [syscallDispatch, get_bind_apply, bind_eq_ok] at h
  obtain ⟨uid, t₁, hnew, _, t₂, hderef, _, t₃, hstack, _, t₄, hadd, h⟩ := h
  have hnext := nextTid_of_ok hnew
  obtain ⟨hpid, -, hvalid, hregistry⟩ := threadNew_registry hnew
  have hsame : t₃.registry = t₂.registry :=
    ((Does.change fun _ => .task ..).routine.ok hstack).registry
  refine ⟨uid, hpid ▸ hnext, hvalid, ?_⟩
  rw [((syscallReturnSet_does _).routine.ok h).registry,
    ((schedulerAdd_does _).routine.ok hadd).registry,
    hsame, ((derefThread_does _).routine.ok hderef).registry, hregistry]

theorem Kernel.step_creates {ev : Event} (hcreate : ev.creates = true) (h : k.step ev = some k') :
    k'.registry = k.registry ∨ ∃ uid, k.nextTid uid.pid = some uid.tid ∧
      k.registry.Valid (.create uid) ∧ k'.registry = k.registry.apply (.create uid) := by
  cases hcall : ev.call with
  | none => simp [Event.creates, hcall] at hcreate
  | some call =>
    obtain ⟨frame, input, h⟩ := step_of_call hcall h
    cases call with
    | launch pid entry =>
      exact syscallLaunch_registry (k := { k with frame := frame })
        (recover_of_noFault ((syscallLaunch_does _ _).noFault _) h)
    | dispatch entry stack =>
      exact Or.inr (syscallDispatch_registry (k := { k with frame := frame })
        (recover_of_noFault ((syscallDispatch_does _ _).noFault _) h))
    | _ => simp [Event.creates, hcall] at hcreate

/-- No other event brings a thread to life. -/
theorem Kernel.live_of_step {ev : Event} (hk : k.Reserved) (hcreate : ev.creates = false)
    (h : k.step ev = some k') (hlive : k'.live uid = true) : k.live uid = true := by
  obtain ⟨-, ops, hruns⟩ := step_registers hk h
  have hkeep : (k'.registry.thread uid).isSome → (k.registry.thread uid).isSome := by
    refine Steps.invariant (I := fun R : Registry =>
      (R.thread uid).isSome → (k.registry.thread uid).isSome) ?_ hruns id
    rintro R op _ hR hstep ⟨-, hmay⟩
    cases hstep
    cases op with
    | create v =>
      rw [MayDo, hcreate] at hmay
      cases hmay
    | exit v =>
      intro hsome
      simp only [Registry.apply] at hsome
      split at hsome
      · cases hsome
      · exact hR hsome
    | kill p =>
      intro hsome
      simp only [Registry.apply] at hsome
      split at hsome
      · cases hsome
      · exact hR hsome
    | _ => exact hR
  rw [← registry_thread_isSome] at hlive ⊢
  exact hkeep hlive

/-! ## Boot -/

/-- The registry while modules are started: no slot has been handed out twice, and the processes
have no parents and one thread. -/
structure BootRegistry (k : Kernel) : Prop where
  reserved : k.Reserved
  intact : k.registry.Intact
  versioned : k.registry.Versioned
  unused : ∀ p, k.registry.process p = none → k.registry.processVersion p = 0
  orphans : ∀ p r, k.registry.process p = some r → r.parent = 0
  single : ∀ u, (k.registry.thread u).isSome → u.tid = 0
  services : k.serviceIds = fun _ => {}

theorem BootRegistry.routine (h : Routine k k') (hk : BootRegistry k) : BootRegistry k' := by
  refine ⟨h.reserved hk.reserved, ?_, ?_, ?_, ?_, ?_, ?_⟩
  · rw [h.registry]
    exact hk.intact
  · rw [h.registry]
    exact hk.versioned
  · rw [h.registry]
    exact hk.unused
  · rw [h.registry]
    exact hk.orphans
  · rw [h.registry]
    exact hk.single
  · exact (congrArg Registry.service h.registry).trans hk.services

/-- Starting a module takes the registry from one state of the boot to the next. -/
theorem startModule_bootRegistry {binary : ElfBinary} (h : startModule binary k = .ok () k')
    (hk : BootRegistry k) : BootRegistry k' := by
  simp only [startModule, bind_eq_ok] at h
  obtain ⟨pid, k₁, hproc, _, k₂, hload, uid, k₃, hthread, hadd⟩ := h
  obtain ⟨hres, hvalid, hspawn⟩ := processNew_registry hk.reserved hproc
  have hnew := processNew_eq_ok hproc
  have hfree : k.registry.processVersion pid = 0 := hk.unused pid hvalid
  -- `process_new` takes a PID that was never used.
  have hk₁ : BootRegistry k₁ := by
    refine ⟨hres, ?_, ?_, fun p hp => ?_, fun p r hp => ?_, ?_,
      hnew.services.trans hk.services⟩
    · rw [hspawn]
      exact hk.intact.apply hvalid trivial
    · rw [hspawn]
      exact hk.versioned.apply trivial (by rw [Registry.Fresh, hfree]; decide)
    · rw [hspawn] at hp ⊢
      simp only [Registry.apply] at hp ⊢
      split at hp
      · cases hp
      · next hne =>
        rw [if_neg hne]
        exact hk.unused p hp
    · rw [hspawn] at hp
      simp only [Registry.apply] at hp
      split at hp
      · cases hp
        exact ite_self _
      · exact hk.orphans p r hp
    · rw [hspawn]
      exact hk.single
  have hmem : OnlyMemory k₁ k₂ := (Ensures.forM (loadSection_onlyMemory pid) _).ok hload
  have hk₂ := hk₁.routine hmem.routine
  have hnext := nextTid_of_ok hthread
  obtain ⟨rfl, hmap, hvalid', hcreate⟩ := threadNew_registry hthread
  -- The process is new, so no thread is there to be wiped.
  have hempty : ∀ v : ThreadUid, v.pid = uid.pid → k₂.live v = false := by
    intro v hv
    rw [hmem.eq]
    exact hnew.not_live hv
  have hkeeps : k₂.registry.Keeps (.create uid) := by
    intro v t hv
    have hne : v.pid ≠ uid.pid := by
      intro hpid
      rw [Kernel.registry_thread, hempty v hpid] at hv
      cases hv
    rw [wiped, if_neg fun h => hne h.1]
    rfl
  have hcounter : k₂.registry.threadVersion uid = 0 := by
    rw [hmem.routine.registry, hspawn]
    exact if_pos rfl
  have hk₃ : BootRegistry k₃ := by
    refine ⟨by rw [Kernel.Reserved, hmap]; exact hk₂.reserved, ?_, ?_, ?_, ?_, fun u hu => ?_, ?_⟩
    · rw [hcreate]
      exact hk₂.intact.apply hvalid' hkeeps
    · rw [hcreate]
      exact hk₂.versioned.apply hkeeps (by rw [Registry.Fresh, hcounter]; decide)
    · rw [hcreate]
      exact hk₂.unused
    · rw [hcreate]
      exact hk₂.orphans
    · rw [hcreate] at hu
      simp only [Registry.apply] at hu
      split at hu
      · next huid =>
        rw [huid]
        exact Kernel.nextTid_first (Kernel.registry_process_isSome.symm.trans hvalid'.1) hempty hnext
      · rw [Option.isSome_map] at hu
        exact hk₂.single u hu
    · exact (congrArg Registry.service hcreate).trans hk₂.services
  exact hk₃.routine ((schedulerAdd_does _).routine.ok hadd)

/-- After `process_init` there is neither a process nor a thread. -/
theorem processInit_bootRegistry {vm : Vm} (h : processInit (Kernel.initial vm) = .ok () k) :
    BootRegistry k := by
  obtain ⟨hproc, hk⟩ := processInit_eq_ok h
  have hprocess : ∀ p, k.registry.process p = none := fun p => by
    rw [Kernel.registry_process, hproc]
    rfl
  have hthread : ∀ u, k.registry.thread u = none := fun u => by
    rw [Kernel.registry_thread, Kernel.live_of_no_process hproc]
    rfl
  have hnoProcess : ∀ p r, k.registry.process p ≠ some r := fun p r hp => by
    rw [hprocess] at hp
    cases hp
  have hnoThread : ∀ u t, k.registry.thread u ≠ some t := fun u t hu => by
    rw [hthread] at hu
    cases hu
  refine ⟨?_, ⟨⟨fun p r hp => absurd hp (hnoProcess p r), fun p r hp => absurd hp (hnoProcess p r),
    fun u hu => ?_⟩, fun u t hu => absurd hu (hnoThread u t),
    fun u t hu => absurd hu (hnoThread u t)⟩, ⟨fun p r hp => absurd hp (hnoProcess p r),
    fun u t hu => absurd hu (hnoThread u t)⟩, fun p _ => ?_,
    fun p r hp => absurd hp (hnoProcess p r), fun u hu => ?_, ?_⟩
  · rw [processInit, get_bind_apply] at h
    obtain ⟨_, k₁, -, hmap⟩ := bind_eq_ok.mp h
    rw [modify_eq_ok] at hmap
    rw [Kernel.Reserved, hmap, Bmstack.test_link, Bmstack.test_link]
    exact ⟨rfl, rfl⟩
  · rw [hthread] at hu
    cases hu
  · show k.blockVersions p = 0
    rw [hk]
    rfl
  · rw [hthread] at hu
    cases hu
  · rw [hk]
    rfl

/-- What `scheduler_start` does to the registry: it installs the timer. -/
theorem schedulerStart_registry (h : schedulerStart k = .ok () k') : k'.registry = { k.registry with
        handle := Function.update k.irqHandle 0 .timerTick
        enabled := Function.update k.irqEnabled 0 true } ∧
      k'.blockMap = k.blockMap := by
  simp only [schedulerStart, get_bind_apply, modify_bind_apply, bind_eq_ok, dassert_eq_ok] at h
  obtain ⟨_, _, ⟨-, rfl⟩, proc, t₁, hproc, _, t₂, hload, thread, t₃, hthread, h⟩ := h
  have hroutine : Routine _ k' :=
    IsTrans.trans _ _ _ ((derefProcess_does _).routine.ok hproc) <|
      IsTrans.trans _ _ _ ((pagingPasLoad_does _).routine.ok hload) <|
        IsTrans.trans _ _ _ ((derefThread_does _).routine.ok hthread)
          ((enter_does _).routine.ok h)
  exact ⟨hroutine.registry, hroutine.blockMap⟩

/-- The registry when user mode is entered for the first time. -/
theorem Booted.registry (h : Booted k) : BootRegistry k := by
  obtain ⟨vm, modules, h⟩ := h
  simp only [kmain, bind_eq_ok] at h
  obtain ⟨_, k₁, hinit, _, k₂, hmodules, hstart⟩ := h
  have hk₂ : BootRegistry k₂ :=
    forM_invariant (fun _ _ _ h hs => startModule_bootRegistry h hs) hmodules
      (processInit_bootRegistry hinit)
  obtain ⟨hregistry, hmap⟩ := schedulerStart_registry hstart
  obtain ⟨⟨⟨hpid, hversion, howner⟩, htid, hgeneration⟩, ⟨hprocess, hthread⟩⟩ :=
    And.intro hk₂.intact hk₂.versioned
  refine ⟨by rw [Kernel.Reserved, hmap]; exact hk₂.reserved, ?_, ?_, ?_, ?_, ?_,
    (congrArg Registry.service hregistry).trans hk₂.services⟩
  · rw [hregistry]
    exact ⟨⟨hpid, hversion, howner⟩, htid, hgeneration⟩
  · rw [hregistry]
    exact ⟨hprocess, hthread⟩
  · rw [hregistry]
    exact hk₂.unused
  · rw [hregistry]
    exact hk₂.orphans
  · rw [hregistry]
    exact hk₂.single

theorem Booted.timer (h : Booted k) : k.irqHandle 0 = .timerTick ∧ k.irqEnabled 0 = true := by
  obtain ⟨vm, modules, h⟩ := h
  simp only [kmain, bind_eq_ok] at h
  obtain ⟨_, k₁, -, _, k₂, -, hstart⟩ := h
  obtain ⟨hregistry, -⟩ := schedulerStart_registry hstart
  exact ⟨congrFun (congrArg Registry.handle hregistry) 0,
    congrFun (congrArg Registry.enabled hregistry) 0⟩

end Horizon
