import Horizon.System.Trace

/-!
# Horizon — the state after boot

`kmain` starts one process per module. When user mode is entered for the first time all queues
are proper and empty, no message has been sent yet, and every thread is running under a port
that names it.
-/

namespace Horizon

open StateError

variable {k k' k₀ : Kernel} {pid : Pid} {uid : ThreadUid} {evs : List Event}

/-- No thread has done anything yet. -/
structure Mail.Initial (m : Mail) : Prop where
  history : m.history = []
  fresh : ∀ u w, m.view u = some w →
    ∃ port, w = View.new port ∧ port.pid = u.pid ∧ port.tid = u.tid ∧ port.unversioned = false

structure BootState (k : Kernel) : Prop where
  sound : k.Sound
  named : k.Named
  initial : k.mail.Initial

theorem BootState.alike (h : BootState k) (ha : Alike k k') : BootState k' :=
  ⟨ha.sound h.sound, ha.named h.named, ha.mail ▸ h.initial⟩

theorem BootState.quiet {α : Type} {x : KernelM α} {a : α} (hx : Ensures Quiet x)
    (h : x k = .ok a k') (hk : BootState k) : BootState k' := hk.alike (hx.ok h).spares

theorem loadSection_onlyMemory (pid : Pid) (sect : ElfSection) :
    Ensures OnlyMemory (loadSection pid sect) := by
  refine .ite (.pure _) (.bind (dassert_does _).onlyMemory fun _ => ?_)
  refine .bind (virtualMap_does _ _ _ _).onlyMemory fun _ => .ite ?_ (.pure _)
  exact (virtualAlloc_does _ _ _).onlyMemory

theorem threadNew_version {entry : Word} (h : threadNew pid entry k = .ok uid k') :
    (k'.thread uid).version =
      nextVersion ((k.blocks pid).process.threadInfo.versions uid.tid.toNat) := by
  obtain ⟨index, hindex, rfl, -, -, hmem⟩ := threadNew_eq_ok h
  rw [Kernel.thread, hmem.eq]
  show (((k.setBlock pid _).blocks pid).threads _).version = _
  rw [Kernel.blocks_setBlock, if_pos rfl, Block.threads_addThread_self, toNat_ofNat_tid hindex]

/-- A new process has no threads, so its first one has version 1 and damages nothing. -/
theorem startModule_bootState {binary : ElfBinary} (h : startModule binary k = .ok () k')
    (hk : BootState k) : BootState k' := by
  simp only [startModule, bind_eq_ok] at h
  obtain ⟨pid, k₁, hproc, _, k₂, hload, uid, k₃, hthread, hadd⟩ := h
  have hnew := processNew_eq_ok hproc
  have hmem : OnlyMemory k₁ k₂ := (Ensures.forM (loadSection_onlyMemory pid) _).ok hload
  have halike : Alike k k₂ := hnew.alike.trans hmem.still.toQuiet.spares
  have hk₂ : BootState k₂ := hk.alike halike
  have hinfo : (k₂.blocks pid).process.threadInfo = {} := by
    rw [hmem.eq]
    exact hnew.threadInfo
  have hempty : ∀ v : ThreadUid, v.pid = pid → k₂.live v = false := by
    intro v hv
    rw [hmem.eq]
    exact hnew.not_live hv
  have hversion := threadNew_version hthread
  obtain ⟨rfl, hcreates⟩ := threadNew_creates hthread
  have hsound : k₃.Sound := ⟨hcreates.linked hk₂.sound.linked⟩
  obtain ⟨hlive, -, -, hb, -⟩ := schedulerAdd_becomes hadd
  refine ⟨hb.sound hsound, hb.named (hcreates.named hk₂.named), ?_, fun v w hv => ?_⟩
  · rw [hb.mail]
    exact hcreates.history.trans hk₂.initial.history
  · rw [hb.mail, Mail.view_modify] at hv
    split at hv
    · next huid =>
      subst huid
      obtain ⟨port, hview, hpid, htid⟩ := hcreates.new
      have hport : port = k₃.portOfUid v := by
        rw [Kernel.view_of_live hlive, Option.some.injEq] at hview
        exact (congrArg View.port hview).symm
      change Option.map View.wake (k₃.view v) = some w at hv
      rw [hview, Option.map_some, Option.some.injEq] at hv
      refine ⟨port, hv.symm, hpid hk₂.named, htid, ?_⟩
      have htvn : port.tvn = 1 := by
        rw [hport, Kernel.portOfUid, portOf, hversion, hinfo]
        rfl
      simp [IpcPort.unversioned, htvn]
    · -- No other thread of the new process is there, so nothing else is damaged.
      next hne =>
      have hlv : k₂.live v = true := by
        have := hcreates.live v
        rw [Kernel.live_of_view hv, decide_eq_false hne, Bool.false_or] at this
        exact this.symm
      have hother := hcreates.other v hne fun hd => by
        rw [hempty v hd.1] at hlv
        cases hlv
      exact hk₂.initial.fresh v w (hother.symm.trans hv)

/-- Only the reserved PIDs 0 and 1 are in use. -/
theorem test_initialMap {index : Nat} (h : 2 ≤ index) :
    ((({} : Bmstack).set 0).set 1).test index = false := by
  rw [Bmstack.test_set, Bmstack.test_set, decide_eq_false (show index ≠ 1 by omega),
    decide_eq_false (show index ≠ 0 by omega), Bool.false_or, Bool.false_or, Bmstack.test_eq,
    bitmapTest_eq]
  exact BitVec.getLsbD_zero

/-- `process_init` leaves no process, and changes memory and the map only. -/
theorem processInit_eq_ok {vm : Vm} (h : processInit (Kernel.initial vm) = .ok () k) :
    (∀ pid, k.liveProcess pid = false) ∧
      k = { Kernel.initial vm with
        vm := k.vm, blockMap := k.blockMap, touched := k.touched } := by
  rw [processInit, get_bind_apply] at h
  obtain ⟨_, k₁, halloc, hmap⟩ := bind_eq_ok.mp h
  rw [modify_eq_ok] at hmap
  have hmem := (virtualAlloc_does _ _ _).onlyMemory.ok halloc
  refine ⟨fun pid => ?_, ?_⟩
  · rw [hmap, Kernel.liveProcess]
    by_cases hpid : 2 ≤ pid.toNat
    · rw [Bmstack.test_link, test_initialMap hpid, Bool.and_false]
    · rw [decide_eq_false hpid, Bool.false_and]
  · rw [hmap, hmem.eq]

theorem Kernel.live_of_no_process (h : ∀ pid, k.liveProcess pid = false) : k.live uid = false := by
  rw [Kernel.live, h, Bool.false_and]

theorem processInit_bootState {vm : Vm} (h : processInit (Kernel.initial vm) = .ok () k) :
    BootState k := by
  obtain ⟨hproc, hk⟩ := processInit_eq_ok h
  have hlive : ∀ uid, k.live uid = false := fun uid => Kernel.live_of_no_process hproc
  refine ⟨⟨fun pid => ?_⟩, fun pid hpid => ?_, ?_, fun u w hw => ?_⟩
  · have hoff : ∀ tid, ¬k.sound nobody pid tid := fun tid ht =>
      Bool.false_ne_true ((hlive _).symm.trans ht.1)
    exact ⟨fun tid ht => absurd ht (hoff tid), fun t _ ht => absurd ht (hoff t)⟩
  · rw [hproc] at hpid
    cases hpid
  · rw [hk]
    rfl
  · have := Kernel.live_of_view hw
    rw [hlive] at this
    cases this

theorem schedulerStart_quiet : Ensures Quiet schedulerStart := by
  have hmodify : ∀ {f : Kernel → Kernel}, (∀ k, Quiet k (f k)) →
      Ensures Quiet (modify f : KernelM PUnit) := fun h => .modify h
  refine .bind .get fun _ => .bind (dassert_does _).quiet fun _ => .bind
    (hmodify fun _ => ⟨fun _ => rfl, fun _ => rfl, fun _ => rfl, rfl, rfl, rfl⟩) fun _ => ?_
  refine .bind (derefProcess_does _).quiet fun _ =>
    .bind (pagingPasLoad_does _).quiet fun _ =>
      .bind (derefThread_does _).quiet fun _ => ?_
  exact hmodify fun _ => ⟨fun _ => rfl, fun _ => rfl, fun _ => rfl, rfl, rfl, rfl⟩

theorem Booted.bootState (h : Booted k) : BootState k := by
  obtain ⟨vm, modules, h⟩ := h
  simp only [kmain, bind_eq_ok] at h
  obtain ⟨_, k₁, hinit, _, k₂, hmodules, hstart⟩ := h
  have hk₂ : BootState k₂ :=
    forM_invariant (fun _ _ _ h hs => startModule_bootState h hs) hmodules
      (processInit_bootState hinit)
  exact hk₂.quiet schedulerStart_quiet hstart

/-! ## Runs without a first wake-up -/

/-- No event hands a message to a thread that waits for it on an untouched queue. -/
abbrev NoFirstWake (k : Kernel) (ev : Event) (_ : Kernel) : Prop := ¬FirstWake (k.Hands ev) k

theorem sound_of_run (hrun : Steps Kernel.step NoFirstWake k₀ evs k) (hk : k₀.Sound) : k.Sound :=
  hrun.invariant (fun _ _ _ hs hstep hguard => (Kernel.step_progress hs hstep hguard).sound) hk

/-- Nobody waits for anything when user mode is entered. -/
theorem BootState.noFirstWake (h : BootState k) (ev : Event) : NoFirstWake k ev k' := by
  rintro ⟨u, sender, -, hlive, hwoken, -⟩
  obtain ⟨port, hport, -⟩ := h.initial.fresh u _ (Kernel.view_of_live hlive)
  rw [Thread.wokenBy_eq_true] at hwoken
  have hstate : (k.thread u).state = .active := congrArg View.state hport
  rw [hstate] at hwoken
  cases hwoken.1

/-! ## A small machine -/

/-- Memory as `physical_init` and `paging_init` leave it on a machine with 1024 free blocks. -/
def smallVm (ram : Word → BitVec 8) : Vm where
  pages := fun frame i =>
    if frame = 0x400 ∧ i = recursiveIndex then
      { present := true, writable := true, frame := 0x400 }
    else if frame = 0x400 ∧ dirIndex kernelVirtBase ≤ i then
      { present := true, writable := true, frame := 0x500 + i.setWidth 20 }
    else {}
  kernelDir := 0x400
  cr3 := 0x400
  allocMap := ({} : Bmstack).link 1024
  refCounts := fun _ => 0
  blockCount := 1024
  ram := ram
  blocksBase := 0xC4000000

/-- A binary of one page, loaded from `phys` to address 0x1000. -/
def onePage (phys : Word) : ElfBinary where
  entry := 0x1000
  sections := [{ virt := 0x1000, phys, size := 4096, reserve := 4096 }]

/-- Start one process per page; the first of them has PID 2. -/
def bootPages (ram : Word → BitVec 8) (pages : List Word) : Option Kernel :=
  match kmain (pages.map onePage) (Kernel.initial (smallVm ram)) with
  | .ok _ k => some k
  | .error _ _ => none

theorem booted_of_bootPages {ram : Word → BitVec 8} {pages : List Word}
    (h : bootPages ram pages = some k) : Booted k := by
  refine ⟨smallVm ram, pages.map onePage, ?_⟩
  unfold bootPages at h
  split at h
  · next hmain =>
    cases h
    exact hmain
  · cases h

/-- The system call with number `eax`, from a program at its entry point. -/
def callEvent (eax ebx ecx edx : Word) : Event :=
  .syscall { eax, ebx, ecx, edx, eip := 0x1000 } 0

/-- The state after some events on the small machine, if none of them stops it. -/
def runPages (ram : Word → BitVec 8) (pages : List Word) (events : List Event) : Option Kernel :=
  (bootPages ram pages).bind fun k => runEvents Kernel.step k events

theorem exists_run_of_any {ram : Word → BitVec 8} {pages : List Word} {events : List Event}
    {p : Kernel → Bool} (h : (runPages ram pages events).any p = true) :
    ∃ k₀ k, Booted k₀ ∧ runEvents Kernel.step k₀ events = some k ∧ p k = true := by
  rw [Option.any_eq_true_iff_get] at h
  obtain ⟨hsome, hp⟩ := h
  obtain ⟨k₀, hboot, hrun⟩ := Option.bind_eq_some_iff.mp (Option.some_get hsome).symm
  exact ⟨k₀, _, booted_of_bootPages hboot, hrun, hp⟩

/-- The state in which a call returns. -/
def Syscall.outcome (call : Syscall) (k : Kernel) : Option Kernel :=
  match call.run 0 k with
  | .ok _ k' => some k'
  | .error _ _ => none

theorem Syscall.run_of_outcome {call : Syscall} (h : call.outcome k = some k') :
    call.run 0 k = .ok () k' := by
  unfold outcome at h
  split at h
  · next hrun =>
    cases h
    exact hrun
  · cases h

theorem exists_call_of_any {ram : Word → BitVec 8} {pages : List Word} {call : Syscall}
    {p : Kernel → Kernel → Bool}
    (h : (runPages ram pages evs).any (fun k => (call.outcome k).any (p k)) = true) :
    ∃ k₀ k k', Booted k₀ ∧ runEvents Kernel.step k₀ evs = some k ∧
      call.run 0 k = .ok () k' ∧ p k k' = true := by
  obtain ⟨k₀, k, hboot, hrun, hany⟩ := exists_run_of_any h
  obtain ⟨k', hcall, hp⟩ := (Option.any_eq_true _ _).mp hany
  exact ⟨k₀, k, k', hboot, hrun, Syscall.run_of_outcome hcall, hp⟩

/-- The bitmap in which exactly the bits of a list are set. -/
def bitmapOf (bits : List Nat) : Nat → Word := bits.foldr (fun i bm => bitmapSet bm i) fun _ => 0

theorem bitmapTest_bitmapOf (bits : List Nat) (i : Nat) :
    bitmapTest (bitmapOf bits) i = decide (i ∈ bits) := by
  induction bits with
  | nil => simp [bitmapOf, bitmapTest]
  | cons j bits ih =>
    rw [bitmapOf, List.foldr_cons, bitmapTest_bitmapSet]
    simp only [List.mem_cons, Bool.decide_or]
    exact congrArg _ ih

/-- Is every live thread in the list? The words of the bitmaps are compared, since a computed
map is slow to read. -/
def Kernel.threadsIn (us : List ThreadUid) (k : Kernel) : Bool :=
  (List.range 32).all (fun w =>
    (k.blockMap.entries w).bitmap = bitmapOf (0 :: 1 :: us.map (·.pid.toNat)) w) &&
  us.all fun u => (List.range 2).all fun w => (k.blocks u.pid).process.threadInfo.bitmap w =
    bitmapOf ((us.filter (·.pid = u.pid)).map (·.tid.toNat)) w

theorem Kernel.pid_of_threadsIn {us : List ThreadUid} {p : Pid}
    (h : k.threadsIn us = true) (hp : k.liveProcess p = true) : ∃ v ∈ us, v.pid = p := by
  simp only [threadsIn, Bool.and_eq_true, List.all_eq_true, List.mem_range,
    decide_eq_true_eq] at h
  simp only [liveProcess, Bool.and_eq_true, decide_eq_true_eq] at hp
  obtain ⟨htwo, hpid⟩ := hp
  have hpidLt := p.isLt
  have hpids : bitmapTest (bitmapOf (0 :: 1 :: us.map (·.pid.toNat))) p.toNat = true := by
    rw [bitmapTest_eq, ← h.1 _ (by omega), ← bitmapTest_eq fun i => (k.blockMap.entries i).bitmap]
    exact hpid
  obtain ⟨v, hv, hpidv⟩ : ∃ v ∈ us, v.pid.toNat = p.toNat := by
    simpa [bitmapTest_bitmapOf, show p.toNat ≠ 0 by omega, show p.toNat ≠ 1 by omega]
      using hpids
  exact ⟨v, hv, BitVec.eq_of_toNat_eq hpidv⟩

theorem Kernel.mem_of_threadsIn {us : List ThreadUid} {u : ThreadUid}
    (h : k.threadsIn us = true) (hlive : k.live u = true) : u ∈ us := by
  obtain ⟨v, hv, hpidv⟩ := pid_of_threadsIn h (liveProcess_of_live hlive)
  simp only [threadsIn, Bool.and_eq_true, List.all_eq_true, List.mem_range,
    decide_eq_true_eq] at h
  have htid := live_block hlive
  have htidLt := u.tid.isLt
  have hwords := h.2 v hv
  rw [hpidv] at hwords
  have htids : bitmapTest (bitmapOf ((us.filter (·.pid = u.pid)).map (·.tid.toNat)))
      u.tid.toNat = true := by
    rw [bitmapTest_eq, ← hwords _ (by omega), ← bitmapTest_eq]
    exact htid
  rw [bitmapTest_bitmapOf, decide_eq_true_eq, List.mem_map] at htids
  obtain ⟨x, hx, htidx⟩ := htids
  rw [List.mem_filter, decide_eq_true_eq] at hx
  rw [show u = x from ThreadUid.ext hx.2.symm (BitVec.eq_of_toNat_eq htidx.symm)]
  exact hx.1

/-- The live threads are in the list, and none of them waits with an untouched queue. -/
def Kernel.settled (us : List ThreadUid) (k : Kernel) : Bool :=
  k.threadsIn us && us.all fun u => (k.thread u).state ≠ .waiting ∨
    (k.thread u).msgInfo.count ≠ 0 ∨ (k.thread u).msgInfo.head = noLink

theorem Kernel.noFirstWake_of_settled {us : List ThreadUid} (h : k.settled us = true) (ev : Event) :
    NoFirstWake k ev k' := by
  rintro ⟨u, sender, -, hlive, hwoken, hopen⟩
  rw [settled, Bool.and_eq_true] at h
  have hu := of_decide_eq_true (List.all_eq_true.mp h.2 u (mem_of_threadsIn h.1 hlive))
  rw [Thread.wokenBy_eq_true] at hwoken
  refine hopen fun hcount => ?_
  rcases hu with hstate | hcount' | hhead
  · exact absurd hwoken.1 hstate
  · exact absurd hcount hcount'
  · exact hhead

/-- `runPages`, with a check before every event. -/
def runSettled (us : List ThreadUid) (ram : Word → BitVec 8) (pages : List Word)
    (events : List Event) : Option Kernel :=
  (bootPages ram pages).bind fun k =>
    runEvents (checked Kernel.step fun k _ _ => k.settled us) k events

theorem exists_settled_of_any {us : List ThreadUid} {ram : Word → BitVec 8} {pages : List Word}
    {p : Kernel → Bool} (h : (runSettled us ram pages evs).any p = true) :
    ∃ k₀ k, Booted k₀ ∧ Steps Kernel.step NoFirstWake k₀ evs k ∧ k.Sound ∧ p k = true := by
  rw [runSettled, Option.any_bind, Option.any_eq_true_iff_get] at h
  obtain ⟨hsome, hp⟩ := h
  have hbooted := booted_of_bootPages (Option.some_get hsome).symm
  obtain ⟨k, hsteps, hp⟩ := exists_steps_of_any
    (fun _ ev _ hsettled => Kernel.noFirstWake_of_settled hsettled ev) hp
  exact ⟨_, k, hbooted, hsteps, sound_of_run hsteps hbooted.bootState.sound, hp⟩

end Horizon
