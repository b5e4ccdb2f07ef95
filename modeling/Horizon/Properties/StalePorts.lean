import Horizon.System.RegistryTrace

/-!
# Horizon — ports of the dead

A port is a name for one incarnation of a thread. Runs of the four functions that create and
kill are runs of the registry (`life_runs`), where both slots of a thread are slots with
generation counters: the port names its thread while it lives, and then nobody, until a counter
of eight bits has come round.

The counters start with version 1 and are meant to skip 0, which in a port stands for any
version. But `max(1, version + 1)` is computed before it is cut to eight bits, so 0 follows 255.
-/

namespace Horizon

open StateError

variable {k k' k₀ k₁ k₂ : Kernel} {u uid : ThreadUid} {pid : Pid}

/-- A call that has returned, with its result. -/
inductive LifeOp where
  | processNew (ppid : Pid) (entry : Word) (pid : Pid)
  | processKill (pid : Pid)
  | threadNew (pid : Pid) (entry : Word) (uid : ThreadUid)
  | threadKill (uid : ThreadUid)

namespace LifeOp

/-- Does the call hand out the slot of a process? -/
def handsOutPid (p : Pid) : LifeOp → Bool
  | processNew _ _ pid => pid = p
  | _ => false

/-- Does the call hand out the slot of a thread? -/
def handsOutTid (u : ThreadUid) : LifeOp → Bool
  | threadNew _ _ uid => uid = u
  | _ => false

/-- Does the call kill a thread, or its process? -/
def ends (u : ThreadUid) : LifeOp → Bool
  | processKill pid => pid = u.pid
  | threadKill uid => uid = u
  | _ => false

def toRegistry : LifeOp → RegistryOp
  | processNew ppid _ pid => .spawn pid ppid
  | processKill pid => .kill pid
  | threadNew _ _ uid => .create uid
  | threadKill uid => .exit uid

end LifeOp

def Kernel.life (k : Kernel) : LifeOp → Option Kernel
  | .processNew ppid entry pid => returned (Horizon.processNew ppid entry k) pid
  | .processKill pid => returned (Horizon.processKill pid k) ()
  | .threadNew pid entry uid => returned (Horizon.threadNew pid entry k) uid
  | .threadKill uid => returned (Horizon.threadKill uid k) ()

/-- `process_init` has run, and nothing has been created yet. -/
structure Kernel.Vacant (k : Kernel) : Prop where
  reserved : k.Reserved
  empty : ∀ pid, k.liveProcess pid = false

theorem processInit_vacant {vm : Vm} (h : processInit (Kernel.initial vm) = .ok () k) :
    k.Vacant := ⟨(processInit_bootRegistry h).reserved, (processInit_eq_ok h).1⟩

theorem Kernel.Vacant.intact (h : k.Vacant) : k.registry.Intact := by
  have hprocess : ∀ p r, k.registry.process p ≠ some r := fun p r hp => by
    rw [registry_process, h.empty] at hp
    cases hp
  have hthread : ∀ u t, k.registry.thread u ≠ some t := fun u t hu => by
    rw [registry_thread, live_of_no_process h.empty] at hu
    cases hu
  refine ⟨⟨fun p r hp => absurd hp (hprocess p r), fun p r hp => absurd hp (hprocess p r),
    fun u hu => ?_⟩, fun u t hu => absurd hu (hthread u t), fun u t hu => absurd hu (hthread u t)⟩
  rw [registry_thread_isSome, live_of_no_process h.empty] at hu
  cases hu

theorem life_registry {op : LifeOp} (hk : k.Reserved) (h : k.life op = some k') :
    k'.Reserved ∧ k.registry.Valid op.toRegistry ∧
      k'.registry = k.registry.apply op.toRegistry := by
  cases op with
  | processNew ppid entry pid => exact processNew_registry hk (returned_eq_some.mp h)
  | processKill pid => exact processKill_registry hk (returned_eq_some.mp h)
  | threadNew pid entry uid =>
    obtain ⟨-, hmap, hvalid, hregistry⟩ := threadNew_registry (returned_eq_some.mp h)
    exact ⟨by rwa [Kernel.Reserved, hmap], hvalid, hregistry⟩
  | threadKill uid =>
    obtain ⟨hmap, hvalid, hregistry⟩ := threadKill_registry (returned_eq_some.mp h)
    exact ⟨by rwa [Kernel.Reserved, hmap], hvalid, hregistry⟩

/-- Control blocks are records: creating a thread does not touch those of live threads. -/
def AsRecords (k : Kernel) (op : LifeOp) (k' : Kernel) : Prop :=
  match op with
  | .threadNew _ _ _ => ∀ v, k.live v = true → k'.thread v = k.thread v
  | _ => True

theorem AsRecords.keeps {op : LifeOp} (h : AsRecords k op k') (hk : k.Reserved)
    (hstep : k.life op = some k') : k.registry.Keeps op.toRegistry := by
  cases op with
  | threadNew pid entry uid =>
    obtain ⟨-, hvalid, hregistry⟩ := life_registry hk hstep
    exact Kernel.keeps_create hvalid hregistry fun v hv => congrArg Thread.record (h v hv)
  | _ => trivial

theorem life_runs {ops : List LifeOp} (hrun : Steps Kernel.life AsRecords k ops k')
    (hk : k.Reserved) : k'.Reserved ∧
      Registry.Runs Registry.Keeps k.registry (ops.map LifeOp.toRegistry) k'.registry := by
  induction hrun with
  | nil k => exact ⟨hk, .nil _⟩
  | cons hstep hguard _ ih =>
    obtain ⟨hres, hvalid, hregistry⟩ := life_registry hk hstep
    obtain ⟨hres', hruns⟩ := ih hres
    rw [hregistry] at hruns
    exact ⟨hres', .cons rfl ⟨hvalid, hguard.keeps hk hstep⟩ hruns⟩

section Labels

variable (ops : List LifeOp)

theorem countP_spawns (p : Pid) : (ops.map LifeOp.toRegistry).countP (RegistryOp.spawns p) =
    ops.countP (LifeOp.handsOutPid p) := by
  rw [List.countP_map]
  congr 1
  funext op
  cases op <;> rfl

theorem countP_creates (u : ThreadUid) : (ops.map LifeOp.toRegistry).countP (RegistryOp.creates u) =
    ops.countP (LifeOp.handsOutTid u) := by
  rw [List.countP_map]
  congr 1
  funext op
  cases op <;> rfl

theorem ends_toRegistry (op : LifeOp) (u : ThreadUid) : op.toRegistry.ends u = op.ends u := by
  cases op <;> rfl

theorem any_ends (u : ThreadUid) : (ops.map LifeOp.toRegistry).any (RegistryOp.ends u) =
    ops.any (LifeOp.ends u) := by
  rw [List.any_map]
  congr 1
  funext op
  exact ends_toRegistry op u

end Labels

/-- A port taken from a live thread names it for as long as it lives. Once the thread or its
process has been killed the port names nobody, for up to 255 new owners of the process slot or,
if there were none, of the thread slot. -/
theorem stale_port_rejected {ops₁ ops₂ : List LifeOp} {port : IpcPort} (hinit : k₀.Vacant)
    (hrun₁ : Steps Kernel.life AsRecords k₀ ops₁ k₁) (hport : portFromUid u k₁ = .ok port k₁)
    (hversioned : ¬(port.pvn = 0 ∧ port.tvn = 0))
    (hrun₂ : Steps Kernel.life AsRecords k₁ ops₂ k₂) :
    (ops₂.any (LifeOp.ends u) = false → ∀ parent, k₂.portToUid port parent = u) ∧
    ∀ before op after, ops₂ = before ++ op :: after → before.any (LifeOp.ends u) = false →
      op.ends u = true → after.countP (LifeOp.handsOutPid u.pid) ≤ 255 →
      (after.countP (LifeOp.handsOutPid u.pid) = 0 →
        after.countP (LifeOp.handsOutTid u) ≤ 255) →
      ∀ parent, k₂.portToUid port parent = 0 := by
  obtain ⟨hres, hruns₁⟩ := life_runs hrun₁ hinit.reserved
  obtain ⟨-, hruns₂⟩ := life_runs hrun₂ hres
  have hintact : k₁.registry.Intact := hruns₁.intact hinit.intact
  obtain ⟨hlive, rfl, -⟩ := portFromUid_eq_ok.mp hport
  have hnamed := Kernel.registry_port hlive
  have hver : (k₁.portOfUid u).unversioned = false := decide_eq_false hversioned
  refine ⟨fun halive parent => ?_, fun before op after hops halive hend hpids htids parent => ?_⟩
  · rw [← Kernel.registry_resolve]
    exact hruns₂.resolve_alive hintact hnamed hver ((any_ends ops₂ u).trans halive) parent
  · subst hops
    rw [List.map_append, List.map_cons] at hruns₂
    rw [← Kernel.registry_resolve]
    refine hruns₂.resolve_ended hintact hnamed hver ((any_ends before u).trans halive)
      ((ends_toRegistry op u).trans hend) ?_ (fun hzero => ?_) parent
    · rw [countP_spawns]
      exact Nat.lt_succ_of_le hpids
    · rw [countP_spawns] at hzero
      rw [countP_creates]
      exact Nat.lt_succ_of_le (htids hzero)

/-- The first thread of a process finds no other thread to damage. -/
def Kernel.firstThread (k : Kernel) : LifeOp → Bool
  | .threadNew pid _ _ =>
      (k.blocks pid).process.threadInfo.bitmap 0 = 0 ∧ (k.blocks pid).process.threadInfo.bitmap 1 = 0
  | _ => true

theorem pid_ne_of_firstThread {entry : Word} {v : ThreadUid}
    (h : k.firstThread (.threadNew pid entry uid) = true) (hlive : k.live v = true) :
    v.pid ≠ pid := by
  rintro rfl
  obtain ⟨h0, h1⟩ := of_decide_eq_true h
  simp only [Kernel.live, Block.live, Bool.and_eq_true, bitmapTest_eq] at hlive
  have htid := v.tid.isLt
  have hword : v.tid.toNat / 32 = 0 ∨ v.tid.toNat / 32 = 1 := by omega
  rcases hword with hw | hw
  · rw [hw, h0] at hlive
    simp at hlive
  · rw [hw, h1] at hlive
    simp at hlive

theorem asRecords_of_firstThread {op : LifeOp} (h : k.firstThread op = true)
    (hstep : k.life op = some k') : AsRecords k op k' := by
  cases op with
  | threadNew pid entry uid =>
    intro v hlive
    obtain ⟨index, -, -, -, -, hmem⟩ := threadNew_eq_ok (returned_eq_some.mp hstep)
    have hne := pid_ne_of_firstThread h hlive
    rw [hmem.eq, Kernel.thread, Kernel.thread]
    exact congrArg (fun b : Block => b.threads v.tid) (Kernel.blocks_setBlock.trans (if_neg hne))
  | _ => trivial

/-- The small machine after `process_init`. -/
def vacantSmall : Option Kernel :=
  match processInit (Kernel.initial (smallVm fun _ => 0)) with
  | .ok _ k => some k
  | .error _ _ => none

theorem exists_vacant_of_any {p : Kernel → Bool} (h : vacantSmall.any p = true) :
    ∃ k, k.Vacant ∧ p k = true := by
  obtain ⟨k, hk, hp⟩ := (Option.any_eq_true _ _).mp h
  unfold vacantSmall at hk
  split at hk
  · next hinit =>
    cases hk
    exact ⟨k, processInit_vacant hinit, hp⟩
  · cases hk

/-- A run of calls that has been computed, in which every thread is the first of its process. -/
theorem exists_life_of_any {ops : List LifeOp} {p : Kernel → Bool}
    (h : (runEvents (checked Kernel.life fun k op _ => k.firstThread op) k ops).any p = true) :
    ∃ k', Steps Kernel.life AsRecords k ops k' ∧ p k' = true := by
  obtain ⟨k', hrun, hp⟩ := exists_steps_of_any
    (P := fun k op _ => Kernel.firstThread k op = true) (fun _ _ _ => id) h
  exact ⟨k', hrun.mono fun _ _ _ hstep hfirst => asRecords_of_firstThread hfirst hstep, hp⟩

/-- The main thread of a process is killed, and replaced under a new version. -/
theorem port_of_replaced_thread : ∃ k₀ k₁ k₂ port, k₀.Vacant ∧
    Steps Kernel.life AsRecords k₀
      [.processNew 0 0 2, .threadNew 2 0 { pid := 2, tid := 0 }] k₁ ∧
    portFromUid { pid := 2, tid := 0 } k₁ = .ok port k₁ ∧
    Steps Kernel.life AsRecords k₁
      [.threadKill { pid := 2, tid := 0 }, .threadNew 2 0 { pid := 2, tid := 0 }] k₂ ∧
    k₂.live { pid := 2, tid := 0 } = true ∧ k₂.portToUid port 0 = 0 := by
  have hany : vacantSmall.any (fun k =>
      (runEvents (checked Kernel.life fun k op _ => k.firstThread op) k
        [.processNew 0 0 2, .threadNew 2 0 { pid := 2, tid := 0 }]).any fun k₁ =>
          k₁.live { pid := 2, tid := 0 } && (k₁.portOfUid { pid := 2, tid := 0 }).pvn ≠ 0 &&
          (runEvents (checked Kernel.life fun k op _ => k.firstThread op) k₁
            [.threadKill { pid := 2, tid := 0 }, .threadNew 2 0 { pid := 2, tid := 0 }]).any
              fun k₂ => k₂.live { pid := 2, tid := 0 }) = true := by decide +kernel
  obtain ⟨k₀, hvacant, hany⟩ := exists_vacant_of_any hany
  obtain ⟨k₁, hrun₁, hany⟩ := exists_life_of_any hany
  simp only [Bool.and_eq_true, decide_eq_true_eq] at hany
  obtain ⟨⟨hlive, hpvn⟩, hany⟩ := hany
  obtain ⟨k₂, hrun₂, hlive₂⟩ := exists_life_of_any hany
  have hport := portFromUid_eq_ok.mpr ⟨hlive, rfl, rfl⟩
  have hstale := (stale_port_rejected hvacant hrun₁ hport (fun h => hpvn h.1) hrun₂).2 []
    (.threadKill { pid := 2, tid := 0 }) [.threadNew 2 0 { pid := 2, tid := 0 }] rfl rfl rfl
    (by decide) (by decide) 0
  exact ⟨k₀, k₁, k₂, _, hvacant, hrun₁, hport, hrun₂, hlive₂, hstale⟩

/-! ## Version zero -/

/-- The version counter of the slot that is handed out is not at its end, and no live thread's
control block lies behind a new one in its page. -/
def Kernel.CanName (k : Kernel) : LifeOp → Prop
  | .processNew _ _ _ => ∀ pid, k.nextPid = some pid → k.blockVersions pid ≠ 255
  | .threadNew pid _ _ => ∀ tid, k.nextTid pid = some tid →
      (k.blocks pid).process.threadInfo.versions tid.toNat ≠ 255 ∧
        ∀ v, k.live v = true → wiped { pid, tid } v = 0
  | _ => True

theorem Kernel.CanName.keeps {op : LifeOp} (h : k.CanName op) (hstep : k.life op = some k') :
    k.registry.Keeps op.toRegistry := by
  cases op with
  | threadNew pid entry uid =>
    have hnew := returned_eq_some.mp hstep
    obtain ⟨rfl, -⟩ := threadNew_registry hnew
    intro v t hv
    have hlive : k.live v = true := by
      rw [← registry_thread_isSome, hv]
      rfl
    rw [(h uid.tid (nextTid_of_ok hnew)).2 v hlive]
    rfl
  | _ => trivial

theorem Kernel.CanName.fresh {op : LifeOp} (h : k.CanName op) (hstep : k.life op = some k') :
    k.registry.Fresh op.toRegistry := by
  cases op with
  | processNew ppid entry pid => exact h pid (nextPid_of_ok (returned_eq_some.mp hstep))
  | threadNew pid entry uid =>
    have hnew := returned_eq_some.mp hstep
    obtain ⟨rfl, -⟩ := threadNew_registry hnew
    exact (h uid.tid (nextTid_of_ok hnew)).1
  | _ => trivial

theorem positive_of_ne_zero {v : BitVec 8} (h : v ≠ 0) : 1 ≤ v.toNat ∧ v.toNat ≤ 255 :=
  ⟨Nat.one_le_iff_ne_zero.mpr fun h0 => h (BitVec.eq_of_toNat_eq h0),
    Nat.le_of_lt_succ v.isLt⟩

/-- In every state reached, no live process and no live thread has version 0, if the counters
of the slots that are handed out have not reached 255 and no live thread has been damaged. -/
theorem versions_positive {ops : List LifeOp} (hinit : k₀.Vacant)
    (hrun : Steps Kernel.life (fun k op _ => k.CanName op) k₀ ops k) :
    (∀ pid, k.liveProcess pid = true → 1 ≤ (k.blocks pid).process.version.toNat ∧
      (k.blocks pid).process.version.toNat ≤ 255) ∧
    ∀ u, k.live u = true → 1 ≤ (k.thread u).version.toNat ∧ (k.thread u).version.toNat ≤ 255 := by
  have hkeep : k.Reserved ∧ k.registry.Versioned := by
    refine hrun.invariant (I := fun t => t.Reserved ∧ t.registry.Versioned)
      (fun s op s' hs hstep hname => ?_) ⟨hinit.reserved, ?_⟩
    · obtain ⟨hres, -, hregistry⟩ := life_registry hs.1 hstep
      rw [hregistry]
      exact ⟨hres, hs.2.apply (hname.keeps hstep) (hname.fresh hstep)⟩
    · refine ⟨fun p r hp => ?_, fun u t hu => ?_⟩
      · rw [Kernel.registry_process, hinit.empty] at hp
        cases hp
      · rw [Kernel.registry_thread, Kernel.live_of_no_process hinit.empty] at hu
        cases hu
  refine ⟨fun pid hlive => positive_of_ne_zero ?_, fun u hlive => positive_of_ne_zero ?_⟩
  · exact hkeep.2.process pid _ (Kernel.registry_process.trans (if_pos hlive))
  · exact hkeep.2.thread u _ (Kernel.registry_thread.trans (if_pos hlive))

/-- A computed form of the condition. -/
def Kernel.canName (k : Kernel) (op : LifeOp) : Bool :=
  k.firstThread op && match op with
    | .processNew _ _ _ => k.nextPid.all fun pid => k.blockVersions pid ≠ 255
    | .threadNew pid _ _ =>
        (k.nextTid pid).all fun tid => (k.blocks pid).process.threadInfo.versions tid.toNat ≠ 255
    | _ => true

theorem Kernel.canName_eq_true {op : LifeOp} (h : k.canName op = true) : k.CanName op := by
  simp only [canName, Bool.and_eq_true] at h
  obtain ⟨hfirst, h⟩ := h
  cases op with
  | processNew ppid entry pid =>
    intro pid hpid
    rw [hpid] at h
    exact of_decide_eq_true h
  | threadNew pid entry uid =>
    intro tid htid
    simp only [htid] at h
    refine ⟨of_decide_eq_true h, fun v hlive => if_neg fun hv => ?_⟩
    exact absurd hv.1 (pid_ne_of_firstThread hfirst hlive)
  | _ => trivial

/-- A process and its main thread have positive versions. -/
theorem first_versions_positive : ∃ k₀ k, k₀.Vacant ∧
    Steps Kernel.life (fun k op _ => k.CanName op) k₀
      [.processNew 0 0 2, .threadNew 2 0 { pid := 2, tid := 0 }] k ∧
    k.live { pid := 2, tid := 0 } = true ∧ 1 ≤ (k.thread { pid := 2, tid := 0 }).version.toNat := by
  have hany : vacantSmall.any (fun k =>
      (runEvents (checked Kernel.life fun k op _ => k.canName op) k
        [.processNew 0 0 2, .threadNew 2 0 { pid := 2, tid := 0 }]).any fun k =>
          k.live { pid := 2, tid := 0 }) = true := by decide +kernel
  obtain ⟨k₀, hvacant, hany⟩ := exists_vacant_of_any hany
  obtain ⟨k, hrun, hlive⟩ := exists_steps_of_any
    (fun _ _ _ => Kernel.canName_eq_true) hany
  exact ⟨k₀, k, hvacant, hrun, hlive, ((versions_positive hvacant hrun).2 _ hlive).1⟩

/-! A slot is used up by creating and killing one thread again and again. -/

theorem pageLoop_once (body : Word → Word → VmM Unit) {finish curr : Word} (other : Word)
    {vm vm' : Vm} (hlt : curr < finish) (hlast : ¬curr + archPgsize < finish)
    (hbody : body curr other vm = .ok () vm') :
    pageLoop body finish pageFuel curr other vm = .ok () vm' := by
  have hloop : pageLoop body finish pageFuel curr other =
      (do
        body curr other
        pageLoop body finish (2 ^ 20) (curr + archPgsize) (other + archPgsize)) := by
    rw [pageFuel, pageLoop, if_pos hlt]
  have hrest : pageLoop body finish (2 ^ 20) (curr + archPgsize) (other + archPgsize) =
      (pure () : VmM Unit) := by
    rw [show (2 : Nat) ^ 20 = 2 ^ 20 - 1 + 1 from rfl, pageLoop, if_neg hlast]
  rw [hloop, bind_apply_of_ok hbody, hrest]
  rfl

/-- `virtual_alloc` within one page of the kernel that is mapped only clears memory. -/
theorem virtualAlloc_mapped (virt size : Word) (hsize : size ≠ 0)
    (hlt : addrAlign virt archPgsize < virt + size)
    (hlast : ¬addrAlign virt archPgsize + archPgsize < virt + size)
    (hmapped : k.vm.pagingIsMapped k.vm.kernelDir (addrAlign virt archPgsize) = true) :
    ∃ frame diff, virtualAlloc 0 virt size k =
      .ok () { k with vm := k.vm.zeroFrom frame diff } := by
  refine ⟨(k.vm.pagingMappingGet k.vm.kernelDir (addrAlign virt archPgsize)).getD 0,
    (if virt < addrAlign virt archPgsize then addrAlign virt archPgsize else virt) -
      addrAlign virt archPgsize, ?_⟩
  have hbody : allocPage k.vm.kernelDir { write := true } virt (addrAlign virt archPgsize) k.vm =
      .ok () (k.vm.zeroFrom
        ((k.vm.pagingMappingGet k.vm.kernelDir (addrAlign virt archPgsize)).getD 0)
        ((if virt < addrAlign virt archPgsize then addrAlign virt archPgsize else virt) -
          addrAlign virt archPgsize)) := by
    have hskip : ¬(!k.vm.pagingIsMapped k.vm.kernelDir (addrAlign virt archPgsize)) = true := by
      rw [hmapped]
      decide
    rw [allocPage, get_bind_apply, runIf, if_neg hskip, pure_bind]
    rfl
  have hloop := pageLoop_once (fun curr _ => allocPage k.vm.kernelDir { write := true } virt curr)
    0 hlt hlast hbody
  simp only [virtualAlloc, dassert, if_pos hsize, pure_bind, getDir, bind_assoc, get_bind_apply,
    if_true, liftVm, zoom, hloop]

/-- `thread_new` succeeds if a slot is free and its page can be had. -/
theorem threadNew_of_alloc {Q : Vm → Prop} (entry : Word) {index : Nat} {words : Nat → Word}
    (hlive : k.liveProcess pid = true)
    (hfound : bitmapFindAndSet (k.blocks pid).process.threadWords processThreadMax =
      (some index, words)) (hindex : index < processThreadMax)
    (halloc : ∀ b, ∃ vm', virtualAlloc 0 ((k.setBlock pid b).blockAddr pid +
        BitVec.ofNat 32 (threadOffset index)) (BitVec.ofNat 32 threadSize) (k.setBlock pid b) =
      .ok () { k.setBlock pid b with vm := vm' } ∧ Q vm') :
    ∃ k', threadNew pid entry k = .ok { pid, tid := BitVec.ofNat 6 index } k' ∧ Q k'.vm := by
  have hget : k.processGet pid = some (k.blocks pid).process :=
    Kernel.processGet_eq_some.mpr ⟨hlive, rfl⟩
  obtain ⟨vm', halloc, hQ⟩ := halloc { k.blocks pid with
    process := { (k.blocks pid).process with
      threadInfo := { (k.blocks pid).process.threadInfo with
        bitmap := fun i => if i < bitmapLength processThreadMax then words i
          else (k.blocks pid).process.threadInfo.bitmap i } } }
  have hrun : ∃ k', threadNew pid entry k = .ok { pid, tid := BitVec.ofNat 6 index } k' ∧
      k'.vm = vm' := by
    simp only [threadNew, get_bind_apply, hget, dassertSome, orThrow, pure_bind, hfound, failIf,
      if_neg (Nat.not_le.mpr hindex), modifyProcess, modify_bind_apply]
    rw [bind_apply_of_ok halloc]
    exact ⟨_, rfl, rfl⟩
  obtain ⟨k', hnew, rfl⟩ := hrun
  exact ⟨k', hnew, hQ⟩

theorem threadKill_apply (hlive : k.live uid = true) (hstate : (k.thread uid).state ≠ .active) :
    threadKill uid k = .ok () (k.freeThread uid) := by
  have hget : k.threadGet uid = some (k.thread uid) := Kernel.threadGet_eq_some.mpr ⟨hlive, rfl⟩
  simp only [threadKill, get_bind_apply, hget, dassertSome, orThrow, pure_bind, dassert,
    if_pos hstate]
  rfl

/-- Process 2 of the small machine has no thread, the page of its main thread is mapped, and
the version counter of that thread is at `v`. -/
structure Kernel.Idle (k : Kernel) (v : BitVec 8) : Prop where
  live : k.liveProcess 2 = true
  bitmap : (k.blocks 2).process.threadInfo.bitmap 0 = 0
  version : (k.blocks 2).process.threadInfo.versions 0 = v
  base : k.vm.blocksBase = 0xC4000000
  mapped : k.vm.pagingIsMapped k.vm.kernelDir 0xC4018000 = true

namespace Kernel.Idle

variable {v : BitVec 8}

theorem create (h : k.Idle v) : ∃ k', k.life (.threadNew 2 0 { pid := 2, tid := 0 }) = some k' ∧
    k'.liveProcess 2 = true ∧ k'.blocks 2 = (k.blocks 2).addThread 2 0 0 ∧
    k'.vm.blocksBase = 0xC4000000 ∧
    k'.vm.pagingIsMapped k'.vm.kernelDir 0xC4018000 = true := by
  have hfound : (bitmapFindAndSet (k.blocks 2).process.threadWords processThreadMax).1 = some 0 := by
    have hzero : (k.blocks 2).process.threadWords 0 = 0 := h.bitmap
    have hscan : bitmapScan (k.blocks 2).process.threadWords (bitmapLength processThreadMax)
        (bitmapLength processThreadMax + 1) 0 = some 0 := by
      rw [bitmapScan, hzero, if_neg (by decide)]
    simp only [bitmapFindAndSet, hscan, hzero]
    decide
  have haddr : ∀ b, (k.setBlock 2 b).blockAddr 2 + BitVec.ofNat 32 (threadOffset 0) =
      0xC40180EC := by
    intro b
    show k.vm.blocksBase + _ + _ = _
    rw [h.base]
    decide
  obtain ⟨k', hnew, hbase, hmapped⟩ := threadNew_of_alloc 0
    (Q := fun vm => vm.blocksBase = 0xC4000000 ∧
      vm.pagingIsMapped vm.kernelDir 0xC4018000 = true) h.live (Prod.ext hfound rfl) (by decide) <| by
    intro b
    rw [haddr]
    obtain ⟨frame, diff, halloc⟩ := virtualAlloc_mapped (k := k.setBlock 2 b) 0xC40180EC
      (BitVec.ofNat 32 threadSize) (by decide) (by decide) (by decide) h.mapped
    exact ⟨_, halloc, h.base, h.mapped⟩
  obtain ⟨index, hindex, huid, -, -, hmem⟩ := threadNew_eq_ok hnew
  have hzero : index = 0 := by
    have := congrArg (fun u : ThreadUid => u.tid.toNat) huid
    simpa [toNat_ofNat_tid hindex] using this.symm
  rw [hzero] at hmem
  refine ⟨k', returned_eq_some.mpr hnew, ?_, ?_, hbase, hmapped⟩
  · rw [hmem.eq]
    exact h.live
  · rw [hmem.blocks]
    exact Kernel.blocks_setBlock.trans (if_pos rfl)

theorem cycle (h : k.Idle v) : ∃ k', Steps Kernel.life (fun _ _ _ => True) k
    [.threadNew 2 0 { pid := 2, tid := 0 }, .threadKill { pid := 2, tid := 0 }] k' ∧
    k'.Idle (v + 1) := by
  obtain ⟨k₁, hnew, hproc, hblock, hbase, hmapped⟩ := h.create
  have hlive : k₁.live { pid := 2, tid := 0 } = true := by
    rw [Kernel.live, hproc, hblock, Block.live_addThread (by decide)]
    rfl
  have hstate : (k₁.thread { pid := 2, tid := 0 }).state ≠ .active := by
    rw [Kernel.thread, hblock]
    exact fun h => ThreadState.noConfusion h
  have hfree : (k₁.freeThread { pid := 2, tid := 0 }).blocks 2 = _ :=
    Kernel.blocks_setBlock.trans (if_pos rfl)
  refine ⟨k₁.freeThread { pid := 2, tid := 0 }, .cons hnew trivial
    (.cons (returned_eq_some.mpr (threadKill_apply hlive hstate)) trivial (.nil _)),
    ⟨hproc, ?_, ?_, hbase, hmapped⟩⟩
  · rw [hfree, hblock]
    show (bitmapClear (bitmapSet (k.blocks 2).process.threadInfo.bitmap 0) 0) 0 = 0
    simp only [bitmapClear, bitmapSet, Nat.zero_div, Function.update_self, h.bitmap]
    decide
  · rw [hfree, hblock]
    show Function.update (k.blocks 2).process.threadInfo.versions 0
      (nextVersion ((k.blocks 2).process.threadInfo.versions 0)) 0 = _
    rw [Function.update_self, h.version, nextVersion_eq]

theorem cycles (h : k.Idle v) (n : Nat) : ∃ k', Steps Kernel.life (fun _ _ _ => True) k
    (List.replicate n [.threadNew 2 0 { pid := 2, tid := 0 },
      .threadKill { pid := 2, tid := 0 }]).flatten k' ∧
    k'.Idle (v + BitVec.ofNat 8 n) := by
  induction n generalizing k v with
  | zero => exact ⟨k, .nil k, by simpa using h⟩
  | succ n ih =>
    obtain ⟨k₁, hrun₁, h₁⟩ := h.cycle
    obtain ⟨k₂, hrun₂, h₂⟩ := ih h₁
    refine ⟨k₂, hrun₁.append hrun₂, ?_⟩
    rw [BitVec.ofNat_add, BitVec.add_comm (BitVec.ofNat 8 n), ← BitVec.add_assoc]
    exact h₂

end Kernel.Idle

/-- The 256th thread in a slot has version 0. -/
theorem version_wraps_to_zero : ∃ k₀ k ops, k₀.Vacant ∧
    Steps Kernel.life (fun _ _ _ => True) k₀ ops k ∧
    k.live { pid := 2, tid := 0 } = true ∧ (k.thread { pid := 2, tid := 0 }).version = 0 := by
  have hany : vacantSmall.any (fun k =>
      (runEvents (checked Kernel.life fun _ _ _ => true) k
        [.processNew 0 0 2, .threadNew 2 0 { pid := 2, tid := 0 },
          .threadKill { pid := 2, tid := 0 }]).any fun k =>
        k.liveProcess 2 ∧ (k.blocks 2).process.threadInfo.bitmap 0 = 0 ∧
        (k.blocks 2).process.threadInfo.versions 0 = 1 ∧ k.vm.blocksBase = 0xC4000000 ∧
        k.vm.pagingIsMapped k.vm.kernelDir 0xC4018000 = true) = true := by decide +kernel
  obtain ⟨k₀, hvacant, hany⟩ := exists_vacant_of_any hany
  obtain ⟨k₁, hrun₁, hidle⟩ := exists_steps_of_any (P := fun _ _ _ => True)
    (fun _ _ _ _ => trivial) hany
  obtain ⟨hlive, hbitmap, hversion, hbase, hmapped⟩ := of_decide_eq_true hidle
  obtain ⟨k₂, hrun₂, h₂⟩ := Kernel.Idle.cycles ⟨hlive, hbitmap, hversion, hbase, hmapped⟩ 254
  obtain ⟨k, hnew, hproc, hblock, -⟩ := h₂.create
  refine ⟨k₀, k, _, hvacant, (hrun₁.append hrun₂).append (.cons hnew trivial (.nil _)), ?_, ?_⟩
  · rw [Kernel.live, hproc, hblock, Block.live_addThread (by decide)]
    rfl
  · rw [Kernel.thread, hblock]
    show nextVersion _ = 0
    rw [h₂.version]
    decide

end Horizon
