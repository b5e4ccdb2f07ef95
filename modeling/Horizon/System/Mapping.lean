import Horizon.Memory.Ranges
import Horizon.Properties.FailedCalls

/-!
# Horizon — the memory system calls as runs of operations

What each of the memory calls does to the address spaces: `vmap` maps fresh frames, `pmap` given
ones, `unmap` drops mappings, `accept` shares those of another process, and `grant` shares and
drops. All of it happens at pages of the ranges in question, if these are below the kernel's half.
For the first three the code makes sure of that; `accept` and `grant` do not look (`Syscall.Low`).
-/

namespace Horizon

open StateError FramePool Vm

variable {k k' : Kernel} {p q pid : Pid} {virt phys size : Word}

/-- The pages that a range touches. -/
def inRange (p : Pid) (virt size : Word) (x : Slot) : Prop :=
  ∃ n < pageCount (addrAlign virt archPgsize) (virt + size),
    x = slotOf p (pageAt (addrAlign virt archPgsize) n)

theorem Kernel.dirs_eq_some (h : k.liveProcess p = true) :
    k.dirs p = some (k.blocks p).process.addrSpace := if_pos h

theorem getDir_eq_ok {res : Frame × PagingFlags} (hp : p ≠ 0) (h : getDir p k = .ok res k') :
    k.dirs p = some res.1 ∧ res.2 = { write := true, user := true } ∧ k = k' := by
  simp only [getDir, get_bind_apply, if_neg hp, bind_eq_ok, dassertSome, orThrow_eq_ok,
    Kernel.processGet_eq_some, pure_eq_ok] at h
  obtain ⟨_, _, ⟨⟨hlive, rfl⟩, rfl⟩, rfl, rfl⟩ := h
  exact ⟨Kernel.dirs_eq_some hlive, rfl, rfl⟩

theorem liftVm_eq_ok {α : Type} {x : VmM α} {a : α} :
    liftVm x k = .ok a k' ↔ ∃ vm, x k.vm = .ok a vm ∧ k' = { k with vm := vm } := zoom_eq_ok

theorem virtualAlloc_remaps (hp : p ≠ 0) (hrange : virt + size ≤ kernelVirtBase)
    (h : virtualAlloc p virt size k = .ok () k') :
    k' = { k with vm := k'.vm } ∧ Remaps (Tidy k.dirs) k.dirs {p}
      (fun op => ∃ x m table, op = .fresh x m table ∧ inRange p virt size x) k.vm k'.vm := by
  simp only [virtualAlloc, bind_eq_ok, dassert_eq_ok, liftVm_eq_ok] at h
  obtain ⟨_, _, ⟨-, rfl⟩, ⟨d, flags⟩, _, hdir, vm', hloop, rfl⟩ := h
  obtain ⟨hd, -, rfl⟩ := getDir_eq_ok hp hdir
  refine ⟨rfl, Remaps.pageLoop hrange (fun n hn vm vm' hbody => ?_) hloop⟩
  refine (allocPage_remaps hd (dirIndex_pageAt hrange hn) hbody).mono ?_
  rintro _ ⟨m, table, rfl, -⟩
  exact ⟨_, m, table, rfl, n, hn, rfl⟩

theorem virtualMap_remaps (hp : p ≠ 0) (hrange : virt + size ≤ kernelVirtBase)
    (h : virtualMap p virt phys size k = .ok () k') :
    k' = { k with vm := k'.vm } ∧ Remaps (Tidy k.dirs) k.dirs {p}
      (fun op => ∃ x m table, op = .place x m table ∧ inRange p virt size x) k.vm k'.vm := by
  simp only [virtualMap, bind_eq_ok, dassert_eq_ok, liftVm_eq_ok] at h
  obtain ⟨_, _, ⟨-, rfl⟩, ⟨d, flags⟩, _, hdir, vm', hloop, rfl⟩ := h
  obtain ⟨hd, rfl, rfl⟩ := getDir_eq_ok hp hdir
  refine ⟨rfl, Remaps.pageLoop hrange (fun n hn vm vm' hbody => ?_) hloop⟩
  obtain ⟨_, vm₁, hmap, hret⟩ := bind_eq_ok.mp hbody
  obtain ⟨-, rfl⟩ := pure_eq_ok.mp hret
  refine (pagingMap_remaps hd (dirIndex_pageAt hrange hn) rfl hmap).mono ?_
  rintro _ ⟨table, rfl⟩
  exact ⟨_, _, table, rfl, n, hn, rfl⟩

theorem virtualUnmap_remaps (hp : p ≠ 0) (hrange : virt + size ≤ kernelVirtBase)
    (h : virtualUnmap p virt size k = .ok () k') :
    k' = { k with vm := k'.vm } ∧ Remaps (Separate k.dirs) k.dirs {p}
      (fun op => ∃ x m, op = .drop x m ∧ inRange p virt size x) k.vm k'.vm := by
  simp only [virtualUnmap, bind_eq_ok, dassert_eq_ok, liftVm_eq_ok] at h
  obtain ⟨_, _, ⟨-, rfl⟩, ⟨d, flags⟩, _, hdir, vm', hloop, rfl⟩ := h
  obtain ⟨hd, -, rfl⟩ := getDir_eq_ok hp hdir
  refine ⟨rfl, Remaps.pageLoop hrange (fun n hn vm vm' hbody => ?_) hloop⟩
  refine (pagingUnmap_remaps hd (dirIndex_pageAt hrange hn) hbody).mono ?_
  rintro _ ⟨m, rfl⟩
  exact ⟨_, m, rfl, n, hn, rfl⟩

/-- A range below the kernel's half that does not wrap. -/
def lowRange (addr size : Word) : Prop := addr.toNat + size.toNat ≤ 0xC0000000

instance (addr size : Word) : Decidable (lowRange addr size) :=
  inferInstanceAs (Decidable (_ ≤ _))

theorem lowRange.toNat_add {addr : Word} (h : lowRange addr size) :
    (addr + size).toNat = addr.toNat + size.toNat := by
  unfold lowRange at h
  rw [BitVec.toNat_add, Nat.mod_eq_of_lt (by omega)]

theorem lowRange.le {addr : Word} (h : lowRange addr size) : addr + size ≤ kernelVirtBase := by
  rw [BitVec.le_def, h.toNat_add]
  exact h

/-- Memory that `grant` or `accept` maps into another address space. -/
structure Transfer where
  target : Pid
  source : Pid
  addrTo : Word
  addrFrom : Word
  size : Word
  prot : BitVec 8

namespace Transfer

variable (t : Transfer)

/-- The number of pages. -/
def pages : ℕ := pageCount (addrAlign t.addrFrom archPgsize) (t.addrFrom + t.size)

/-- The address at which a page arrives. -/
def arrival (n : ℕ) : Word := pageAt (addrAlign t.addrTo archPgsize) n

/-- The address a page comes from. -/
def origin (n : ℕ) : Word := pageAt (addrAlign t.addrFrom archPgsize) n

/-- Both ranges are below the kernel's half, which neither `grant` nor `accept` checks. -/
def Low : Prop :=
  lowRange t.addrFrom t.size ∧
    (addrAlign t.addrTo archPgsize).toNat + 4096 * t.pages ≤ 0xC0000000

instance : Decidable t.Low := inferInstanceAs (Decidable (_ ∧ _))

/-- A page of the source is mapped in the target as well. -/
def Shares (op : Op Slot Frame) : Prop :=
  ∃ n m table, op = .share (slotOf t.target (t.arrival n)) (slotOf t.source (t.origin n)) m table ∧
    n < t.pages ∧ m.writable = t.prot.getLsbD 0

/-- A page of the source is unmapped. -/
def Drops (op : Op Slot Frame) : Prop :=
  ∃ n m, op = .drop (slotOf t.source (t.origin n)) m ∧ n < t.pages

variable {t} {n : ℕ}

theorem Low.dirIndex_origin (h : t.Low) (hn : n < t.pages) : dirIndex (t.origin n) < userTop :=
  dirIndex_pageAt h.1.le hn

theorem Low.dirIndex_arrival (h : t.Low) (hn : n < t.pages) : dirIndex (t.arrival n) < userTop := by
  have hlow := h.2
  refine dirIndex_lt (BitVec.lt_def.mpr ?_)
  show _ < 0xC0000000
  rw [arrival, pageAt, BitVec.toNat_add, BitVec.toNat_ofNat, Nat.add_mod_mod,
    Nat.mod_eq_of_lt (by omega)]
  omega

theorem virtualShare_remaps (hlow : t.Low)
    (h : virtualShare t.target t.source t.addrTo t.addrFrom t.size t.prot k = .ok () k') :
    k' = { k with vm := k'.vm } ∧
      Remaps (Tidy k.dirs) k.dirs {t.target} t.Shares k.vm k'.vm := by
  simp only [virtualShare, get_bind_apply, bind_eq_ok, dassertSome, orThrow_eq_ok,
    Kernel.processGet_eq_some, dassert_eq_ok, liftVm_eq_ok] at h
  obtain ⟨_, _, ⟨⟨hp, rfl⟩, rfl⟩, _, _, ⟨⟨hq, rfl⟩, rfl⟩, _, _, ⟨-, rfl⟩, vm', hloop, rfl⟩ := h
  refine ⟨rfl, Remaps.pageLoop hlow.1.le (fun n hn vm vm' hbody => ?_) hloop⟩
  refine (sharePage_remaps (Kernel.dirs_eq_some hp) (Kernel.dirs_eq_some hq)
    (hlow.dirIndex_origin hn) (hlow.dirIndex_arrival hn) hbody).mono ?_
  rintro _ ⟨m, table, rfl, hwritable⟩
  exact ⟨n, m, table, rfl, hn, hwritable⟩

theorem virtualUnmap_remaps (hlow : t.Low) (hsource : t.source ≠ 0)
    (h : virtualUnmap t.source t.addrFrom t.size k = .ok () k') : k' = { k with vm := k'.vm } ∧
      Remaps (Separate k.dirs) k.dirs {t.source} t.Drops k.vm k'.vm := by
  obtain ⟨heq, hdropped⟩ := Horizon.virtualUnmap_remaps hsource hlow.1.le h
  refine ⟨heq, hdropped.mono ?_⟩
  rintro _ ⟨x, m, rfl, n, hn, rfl⟩
  exact ⟨n, m, rfl, hn⟩

end Transfer

/-! ## The calls -/

/-- The offer or request that `info` points to. -/
def Kernel.shmAt (k : Kernel) (info : Word) : Option Shm :=
  match fetchShm info k with
  | .ok shm _ => some shm
  | .error _ _ => none

/-- The offer that `accept` looks at. -/
def Kernel.offer (k : Kernel) (sid : Word) : Shm :=
  (k.thread (ThreadUid.ofRaw (sid.setWidth 16))).syscallInfo.shmOffer

/-- The memory that a call of `p` maps into another address space. -/
def Syscall.transfer (k : Kernel) (p : Pid) : Syscall → Option Transfer
  | .grant info dest => (k.shmAt info).map fun shm =>
      { target := (k.portToUid shm.dest p).pid, source := p, addrTo := dest, addrFrom := shm.addr
        size := shm.size, prot := shm.prot }
  | .accept sid dest _ => some
      { target := p, source := (ThreadUid.ofRaw (sid.setWidth 16)).pid, addrTo := dest
        addrFrom := (k.offer sid).addr, size := (k.offer sid).size, prot := (k.offer sid).prot }
  | _ => none

/-- The range checks that `grant` and `accept` do not make. -/
def Syscall.Low (k : Kernel) (p : Pid) (call : Syscall) : Prop := ∀ t ∈ call.transfer k p, t.Low

/-- What a call by a thread of `p` may do. -/
def Syscall.ops (k : Kernel) (p : Pid) : Syscall → Op Slot Frame → Prop
  | .vmap dest size, op => ∃ x m table, op = .fresh x m table ∧ inRange p dest size x
  | .pmap dest _ size, op => ∃ x m table, op = .place x m table ∧ inRange p dest size x
  | .unmap addr size, op => ∃ x m, op = .drop x m ∧ inRange p addr size x
  | .grant info dest, op => ∃ t ∈ (Syscall.grant info dest).transfer k p, t.Shares op ∨ t.Drops op
  | call, op => ∃ t ∈ call.transfer k p, t.Shares op

/-- The memory calls. -/
def Syscall.memory : Syscall → Bool
  | .vmap .. | .pmap .. | .unmap .. | .grant .. | .share .. | .accept .. => true
  | _ => false

namespace Inert

theorem vm (h : Inert k k') : k'.vm = k.vm := by rw [h.eq]

theorem dirs (h : Inert k k') : k'.dirs = k.dirs := by
  rw [h.eq]
  rfl

theorem named (h : Inert k k') (hnamed : k.Named) : k'.Named := by
  rw [h.eq]
  exact hnamed

theorem liveProcess (h : Inert k k') : k'.liveProcess p = k.liveProcess p := by
  rw [h.eq]
  rfl

theorem portToUid {port : IpcPort} (h : Inert k k') : k'.portToUid port p = k.portToUid port p := by
  rw [h.eq]
  rfl

end Inert

theorem virtualIsMapped_same {r : Int} (h : virtualIsMapped p virt size k = .ok r k') : k = k' := by
  simp only [virtualIsMapped, bind_eq_ok, dassert_eq_ok, get_bind_apply, orThrow_eq_ok, getDir,
    ite_eq_ok, pure_eq_ok, dassertSome] at h
  obtain ⟨_, _, ⟨-, rfl⟩, _, _, ⟨-, -, rfl⟩ | ⟨-, _, _, ⟨-, rfl⟩, -, rfl⟩, -, rfl⟩ := h <;> rfl

theorem ne_zero_of_liveProcess (h : k.liveProcess p = true) : p ≠ 0 := by
  rintro rfl
  cases h

section Acts

variable {dest src addr info sid : Word} {act : KernelM Unit}

theorem attemptVmap_act (hnamed : k.Named) (h : attemptVmap dest size k = .ok (.ok act) k') :
    k = k' ∧ dest + size ≤ kernelVirtBase ∧ k.liveProcess k.schedulerCurr.pid = true ∧
      act = (virtualAlloc k.schedulerCurr.pid dest size >>= fun _ => syscallReturnSet dest) := by
  simp only [attemptVmap, ite_eq_ok, pure_eq_ok, bind_eq_ok, get_bind_apply, derefProcess_eq_ok,
    reduceCtorEq, false_and, and_false, false_or] at h
  obtain ⟨hrange, -, -, -, _, _, ⟨hlive, rfl, rfl⟩, r, _, hmapped, -, hact, rfl⟩ := h
  rw [hnamed _ hlive] at hact
  obtain rfl := virtualIsMapped_same hmapped
  exact ⟨rfl, BitVec.not_lt.mp hrange, hlive, (Except.ok.inj hact).symm⟩

theorem attemptPmap_act (hnamed : k.Named) (h : attemptPmap dest src size k = .ok (.ok act) k') :
    k = k' ∧ dest + size ≤ kernelVirtBase ∧ k.liveProcess k.schedulerCurr.pid = true ∧
      act = (virtualMap k.schedulerCurr.pid dest src size >>= fun _ => syscallReturnSet dest) := by
  simp only [attemptPmap, ite_eq_ok, pure_eq_ok, bind_eq_ok, get_bind_apply, derefProcess_eq_ok,
    reduceCtorEq, false_and, and_false, false_or] at h
  obtain ⟨hrange, -, -, -, -, _, _, ⟨hlive, rfl, rfl⟩, -, r, _, hmapped, -, hact, rfl⟩ := h
  rw [hnamed _ hlive] at hact
  obtain rfl := virtualIsMapped_same hmapped
  exact ⟨rfl, BitVec.not_lt.mp hrange, hlive, (Except.ok.inj hact).symm⟩

theorem attemptUnmap_act (hnamed : k.Named) (h : attemptUnmap addr size k = .ok (.ok act) k') :
    k = k' ∧ addr + size ≤ kernelVirtBase ∧ k.liveProcess k.schedulerCurr.pid = true ∧
      act = (virtualUnmap k.schedulerCurr.pid addr size >>= fun _ => syscallReturnSet eNONE) := by
  simp only [attemptUnmap, ite_eq_ok, pure_eq_ok, bind_eq_ok, get_bind_apply, derefProcess_eq_ok,
    reduceCtorEq, false_and, and_false, false_or] at h
  obtain ⟨hrange, -, -, -, _, _, ⟨hlive, rfl, rfl⟩, r, _, hmapped, -, hact, rfl⟩ := h
  rw [hnamed _ hlive] at hact
  obtain rfl := virtualIsMapped_same hmapped
  exact ⟨rfl, BitVec.not_lt.mp hrange, hlive, (Except.ok.inj hact).symm⟩

theorem attemptGrant_act (hnamed : k.Named) (h : attemptGrant info dest k = .ok (.ok act) k') :
    Inert k k' ∧ ∃ t ∈ (Syscall.grant info dest).transfer k k.schedulerCurr.pid,
      t.source = k.schedulerCurr.pid ∧ k.liveProcess k.schedulerCurr.pid = true ∧
      act = (virtualShare t.target t.source t.addrTo t.addrFrom t.size t.prot >>= fun _ =>
        virtualUnmap t.source t.addrFrom t.size >>= fun _ => syscallReturnSet eNONE) := by
  simp only [attemptGrant, ite_eq_ok, pure_eq_ok, bind_eq_ok, get_bind_apply, derefProcess_eq_ok,
    orThrow_eq_ok, Kernel.processGet_eq_some, reduceCtorEq, false_and, and_false, false_or] at h
  obtain ⟨_, _, hinfo, -, shm, k₁, hfetch, -, -, -, _, _, ⟨⟨htarget, rfl⟩, rfl⟩, _, _,
    ⟨howner, rfl, rfl⟩, -, -, -, -, _, _, hfrom, -, _, _, hto, -, hact, rfl⟩ := h
  obtain rfl := virtualIsMapped_same hinfo
  obtain rfl := virtualIsMapped_same hfrom
  obtain rfl := virtualIsMapped_same hto
  have hinert : Inert k k₁ := (fetchShm_does info).inert.ok hfetch
  have hshm : k.shmAt info = some shm := by
    rw [Kernel.shmAt, hfetch]
  have hnamed₁ := hinert.named hnamed
  rw [hnamed₁ _ htarget, hnamed₁ _ howner, hinert.portToUid] at hact
  exact ⟨hinert, _, Option.mem_map.mpr ⟨shm, hshm, rfl⟩, rfl, hinert.liveProcess ▸ howner,
    (Except.ok.inj hact).symm⟩

theorem attemptShare_act (h : attemptShare info k = .ok (.ok act) k') :
    Inert k k' ∧ ∃ shm : Shm, act = (derefThread k.schedulerCurr >>= fun _ =>
      modifyThread k.schedulerCurr
        (fun t => { t with syscallInfo := { t.syscallInfo with shmOffer := shm } }) >>= fun _ =>
      syscallReturnSet (k.schedulerCurr.raw.setWidth 32)) := by
  simp only [attemptShare, ite_eq_ok, pure_eq_ok, bind_eq_ok, get_bind_apply, reduceCtorEq,
    false_and, and_false, false_or] at h
  obtain ⟨_, _, hinfo, -, shm, k₁, hfetch, -, -, -, -, -, hact, rfl⟩ := h
  obtain rfl := virtualIsMapped_same hinfo
  exact ⟨(fetchShm_does info).inert.ok hfetch, shm, (Except.ok.inj hact).symm⟩

theorem attemptAccept_act (h : attemptAccept sid dest size k = .ok (.ok act) k') :
    k = k' ∧ ∃ t ∈ (Syscall.accept sid dest size).transfer k k.schedulerCurr.pid,
      t.target = k.schedulerCurr.pid ∧
      act = (virtualShare t.target t.source t.addrTo t.addrFrom t.size t.prot >>= fun _ =>
        syscallReturnSet t.size) := by
  simp only [attemptAccept, ite_eq_ok, pure_eq_ok, bind_eq_ok, get_bind_apply, portFromUid_eq_ok,
    reduceCtorEq, false_and, and_false, false_or] at h
  obtain ⟨-, -, _, _, ⟨-, rfl, rfl⟩, -, -, -, _, _, hto, -, hact, rfl⟩ := h
  obtain rfl := virtualIsMapped_same hto
  exact ⟨rfl, _, rfl, rfl, (Except.ok.inj hact).symm⟩

end Acts

/-- The processes whose address spaces a call of `p` works on. -/
def Syscall.reach (k : Kernel) (p : Pid) (call : Syscall) : Set Pid :=
  {q | q = p ∨ ∃ t ∈ call.transfer k p, q = t.target}

/-- First mappings are made, which takes frames that hold no page structure, and then mappings
are dropped. Nothing else happens to the address spaces. -/
structure Remapped (A : Set Pid) (allowed : Op Slot Frame → Prop) (k k' : Kernel) : Prop where
  dirs : k'.dirs = k.dirs
  named : k.Named → k'.Named
  remaps : ∃ vm, Remaps (Tidy k.dirs) k.dirs A allowed k.vm vm ∧
    Remaps (Separate k.dirs) k.dirs A allowed vm k'.vm

variable {A : Set Pid} {allowed : Op Slot Frame → Prop}

namespace Remapped

theorem of_vm (hdirs : k'.dirs = k.dirs) (hnamed : k.Named → k'.Named) (hvm : k'.vm = k.vm) :
    Remapped A allowed k k' :=
  ⟨hdirs, hnamed, k.vm, .refl _, hvm ▸ .refl _⟩

theorem of_inert (h : Inert k k') : Remapped A allowed k k' := of_vm h.dirs h.named h.vm

theorem inert_trans {k₁ : Kernel} (h : Inert k k₁) (h' : Remapped A allowed k₁ k') :
    Remapped A allowed k k' := by
  obtain ⟨vm, hmade, hdropped⟩ := h'.remaps
  rw [h.dirs, h.vm] at hmade
  rw [h.dirs] at hdropped
  exact ⟨h'.dirs.trans h.dirs, fun hnamed => h'.named (h.named hnamed), vm, hmade, hdropped⟩

theorem trans_inert {k₁ : Kernel} (h : Remapped A allowed k k₁) (h' : Inert k₁ k') :
    Remapped A allowed k k' := by
  obtain ⟨vm, hmade, hdropped⟩ := h.remaps
  rw [← h'.vm] at hdropped
  exact ⟨h'.dirs.trans h.dirs, fun hnamed => h'.named (h.named hnamed), vm, hmade, hdropped⟩

theorem of_remaps {vm : Vm} (heq : k' = { k with vm := k'.vm })
    (hmade : Remaps (Tidy k.dirs) k.dirs A allowed k.vm vm)
    (hdropped : Remaps (Separate k.dirs) k.dirs A allowed vm k'.vm) : Remapped A allowed k k' := by
  refine ⟨?_, fun hnamed => ?_, vm, hmade, hdropped⟩
  · rw [heq]
    rfl
  · rw [heq]
    exact hnamed

end Remapped

/-- An offer changes nothing but the thread that makes it. -/
theorem Remapped.of_setThread {u : ThreadUid} {t : Thread} :
    Remapped A allowed k (k.setThread u t) := by
  have hlive : ∀ p, (k.setThread u t).liveProcess p = k.liveProcess p := fun _ => rfl
  refine .of_vm (funext fun p => ?_) (fun hnamed p hp => ?_) rfl
  · rw [Kernel.dirs, Kernel.dirs, hlive, Kernel.process_setThread]
  · rw [Kernel.process_setThread]
    exact hnamed p (hlive p ▸ hp)

/-- What a memory call does, if the ranges are low. -/
theorem Syscall.run_remapped {call : Syscall} {input : Word} (hmemory : call.memory = true)
    (hlow : call.Low k k.schedulerCurr.pid) (hnamed : k.Named) (h : call.run input k = .ok () k') :
    Remapped (call.reach k k.schedulerCurr.pid) (call.ops k k.schedulerCurr.pid) k k' := by
  rw [← call.attempt_finish, bind_eq_ok] at h
  obtain ⟨verdict, k₁, hattempt, hfinish⟩ := h
  have hset : ∀ {k k' : Kernel} {val}, syscallReturnSet val k = .ok () k' → Inert k k' :=
    fun h => (syscallReturnSet_does _).inert.ok h
  have hself : {k.schedulerCurr.pid} ⊆ call.reach k k.schedulerCurr.pid :=
    Set.singleton_subset_iff.mpr (Or.inl rfl)
  -- A refused call changes the result register only; an accepted one runs its action.
  cases verdict with
  | error code =>
    obtain ⟨hinert, -⟩ := call.attempt_inert input k k₁ code hattempt
    exact .inert_trans hinert (.of_inert (hset hfinish))
  | ok act =>
    change act k₁ = .ok () k' at hfinish
    cases call with
    | vmap dest size =>
      obtain ⟨rfl, hrange, hlive, rfl⟩ := attemptVmap_act hnamed hattempt
      obtain ⟨_, k₂, halloc, hreturn⟩ := bind_eq_ok.mp hfinish
      obtain ⟨heq, hmade⟩ := virtualAlloc_remaps (ne_zero_of_liveProcess hlive) hrange halloc
      exact (Remapped.of_remaps heq (hmade.widen hself) (.refl _)).trans_inert (hset hreturn)
    | pmap dest src size =>
      obtain ⟨rfl, hrange, hlive, rfl⟩ := attemptPmap_act hnamed hattempt
      obtain ⟨_, k₂, hmap, hreturn⟩ := bind_eq_ok.mp hfinish
      obtain ⟨heq, hmade⟩ := virtualMap_remaps (ne_zero_of_liveProcess hlive) hrange hmap
      exact (Remapped.of_remaps heq (hmade.widen hself) (.refl _)).trans_inert (hset hreturn)
    | unmap addr size =>
      obtain ⟨rfl, hrange, hlive, rfl⟩ := attemptUnmap_act hnamed hattempt
      obtain ⟨_, k₂, hunmap, hreturn⟩ := bind_eq_ok.mp hfinish
      obtain ⟨heq, hdropped⟩ :=
        virtualUnmap_remaps (ne_zero_of_liveProcess hlive) hrange hunmap
      exact (Remapped.of_remaps heq (.refl _) (hdropped.widen hself)).trans_inert (hset hreturn)
    | grant info dest =>
      obtain ⟨hinert, t, ht, hsource, hlive, rfl⟩ := attemptGrant_act hnamed hattempt
      obtain ⟨_, k₂, hshare, hrest⟩ := bind_eq_ok.mp hfinish
      obtain ⟨_, k₃, hunmap, hreturn⟩ := bind_eq_ok.mp hrest
      obtain ⟨heq, hmade⟩ := t.virtualShare_remaps (hlow t ht) hshare
      obtain ⟨heq', hdropped⟩ :=
        t.virtualUnmap_remaps (hlow t ht) (hsource ▸ ne_zero_of_liveProcess hlive) hunmap
      -- The unmapping starts from the state that the sharing has left.
      have hdirs : k₂.dirs = k₁.dirs := by
        rw [heq]
        rfl
      rw [hdirs] at hdropped
      rw [heq] at heq'
      refine .inert_trans hinert (.trans_inert (.of_remaps heq' (hmade.mono ?_ |>.widen ?_)
        (hdropped.mono ?_ |>.widen (hsource ▸ hself))) (hset hreturn))
      · exact fun op hop => ⟨t, ht, Or.inl hop⟩
      · exact Set.singleton_subset_iff.mpr (Or.inr ⟨t, ht, rfl⟩)
      · exact fun op hop => ⟨t, ht, Or.inr hop⟩
    | share info =>
      obtain ⟨hinert, shm, rfl⟩ := attemptShare_act hattempt
      simp only [bind_eq_ok, derefThread_eq_ok, modifyThread_eq_ok] at hfinish
      obtain ⟨_, _, ⟨-, -, rfl⟩, _, _, rfl, hreturn⟩ := hfinish
      exact .inert_trans hinert (.trans_inert .of_setThread (hset hreturn))
    | accept sid dest size =>
      obtain ⟨rfl, t, ht, htarget, rfl⟩ := attemptAccept_act hattempt
      obtain ⟨_, k₂, hshare, hreturn⟩ := bind_eq_ok.mp hfinish
      obtain ⟨heq, hmade⟩ := t.virtualShare_remaps (hlow t ht) hshare
      refine (Remapped.of_remaps heq (hmade.mono ?_ |>.widen (htarget ▸ hself))
        (.refl _)).trans_inert (hset hreturn)
      exact fun op hop => ⟨t, ht, hop⟩
    | _ => cases hmemory

/-! ## A machine with two processes -/

/-- Processes 2 and 3 have their directories in the frames 0x401 and 0x402. -/
def bareDirs (p : Pid) : Option Frame :=
  if p = 2 ∨ p = 3 then some (0x3FF + p.setWidth 20) else none

/-- Nothing is mapped for the user, and all blocks are free. -/
def bareVm : Vm where
  pages := fun frame i =>
    if frame ∉ [0x400, 0x401, 0x402] then {}
    else if i = recursiveIndex then { present := true, writable := true, frame := frame }
    else if userTop ≤ i then
      { present := true, writable := true, frame := 0x500 + i.setWidth 20 }
    else {}
  kernelDir := 0x400
  cr3 := 0x401
  allocMap := ({} : Bmstack).link 1024
  refCounts := fun _ => 0
  blockCount := 1024
  ram := fun _ => 0
  blocksBase := 0xC4000000

/-- Both processes have one thread, and that of process 2 is running. -/
def bareKernel : Kernel :=
  { Kernel.initial bareVm with
    blocks := fun pid =>
      { process :=
          { pid, addrSpace := 0x3FF + pid.setWidth 20
            threadInfo := { count := 1, bitmap := bitmapOf [0] } } }
    blockMap := ((((({} : Bmstack).set 0).set 1).set 2).set 3).link 1024
    activeThread := { pid := 2, tid := 0 } }

theorem dirs_bareKernel : bareKernel.dirs = bareDirs := by
  funext p
  have hlive : bareKernel.liveProcess p = decide (p = 2 ∨ p = 3) := by
    revert p
    decide +kernel
  rw [Kernel.dirs, hlive, bareDirs]
  simp only [decide_eq_true_eq]
  rfl

theorem bareKernel_named : bareKernel.Named := fun _ _ => rfl

/-- What a page structure of the machine is used for. -/
def bareUse (f : Frame) : Use :=
  if f = 0x400 then .kernelDir
  else if f = 0x401 ∨ f = 0x402 then .dir ((f - 0x3FF).setWidth 10)
  else .kernelTable ((f - 0x500).setWidth 10)

theorem mem_of_bareDirs {p : Pid} {f : Frame} (h : bareDirs p = some f) :
    f ∈ [0x400, 0x401, 0x402] ∧ Use.dir p = bareUse f ∧ f.toNat < 0x1000 := by
  rw [bareDirs, Option.ite_none_right_eq_some] at h
  obtain ⟨rfl | rfl, h⟩ := h <;> cases h <;> decide

theorem pages_bareVm {f : Frame} {i : BitVec 10} (hf : f ∈ [0x400, 0x401, 0x402]) :
    bareVm.pages f i =
      if i = recursiveIndex then { present := true, writable := true, frame := f }
      else if userTop ≤ i then
        { present := true, writable := true, frame := 0x500 + i.setWidth 20 }
      else {} := if_neg (not_not.mpr hf)

theorem bareUse_kernelTable : ∀ i : BitVec 10, userTop ≤ i → i ≠ recursiveIndex →
    Use.kernelTable i = bareUse (0x500 + i.setWidth 20) ∧
      0x500 + i.setWidth 20 ∉ [0x400, 0x401, (0x402 : Frame)] ∧
      (0x500 + i.setWidth 20 : Frame).toNat < 0x1000 := by
  decide +kernel

theorem holder_table_bareVm {p : Pid} {i : BitVec 10} :
    bareVm.holder bareDirs (.table p i) = none := by
  rw [holder, Option.bind_eq_none_iff]
  intro d hd
  rw [pages_bareVm (mem_of_bareDirs hd).1]
  refine if_neg fun h => ?_
  have hrec : i ≠ recursiveIndex := by
    rintro rfl
    exact absurd h.1 (by decide)
  rw [if_neg hrec, if_neg (BitVec.not_le.mpr h.1)] at h
  exact absurd h.2 (by decide)

theorem holder_kernelTable_bareVm {f : Frame} {i : BitVec 10}
    (h : bareVm.holder bareDirs (.kernelTable i) = some f) :
    Use.kernelTable i = bareUse f ∧ f ∉ [0x400, 0x401, (0x402 : Frame)] ∧ f.toNat < 0x1000 := by
  rw [holder, Option.ite_none_right_eq_some, pages_bareVm (by decide)] at h
  obtain ⟨⟨hi, hne, -⟩, h⟩ := h
  rw [if_neg hne, if_pos hi] at h
  cases h
  exact bareUse_kernelTable i hi hne

theorem holder_bareVm {u : Use} {f : Frame} (h : bareVm.holder bareDirs u = some f) :
    u = bareUse f ∧ f.toNat < 0x1000 := by
  cases u with
  | dir p => exact (mem_of_bareDirs h).2
  | table p i =>
    rw [holder_table_bareVm] at h
    cases h
  | kernelDir =>
    cases h
    decide
  | kernelTable i =>
    obtain ⟨huse, -, hlt⟩ := holder_kernelTable_bareVm h
    exact ⟨huse, hlt⟩

/-- The page structures lie below the blocks that the allocator manages. -/
theorem not_free_bareVm {f : Frame} (h : f.toNat < 0x1000) : ¬bareVm.Free f := by
  rintro ⟨hlt, -⟩
  have hbase : physicalUsableBase.toNat = 0x1000 := rfl
  have hlt' : blockIndex f < 1024 := hlt
  rw [blockIndex, BitVec.toNat_sub, hbase] at hlt'
  omega

theorem bareVm_tidy : bareVm.Tidy bareDirs where
  inj hu hv := (holder_bareVm hu).1.trans (holder_bareVm hv).1.symm
  upper hd hi hne := by
    rw [pages_bareVm (mem_of_bareDirs hd).1, pages_bareVm (by decide), if_neg hne, if_neg hne]
  window hd := by rw [pages_bareVm (mem_of_bareDirs hd).1, if_pos rfl]
  held hu := not_free_bareVm (holder_bareVm hu).2
  sized := by decide

end Horizon
