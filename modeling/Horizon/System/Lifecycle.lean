import Horizon.System.Effects

/-!
# Horizon — what creating and killing threads does to the mail

Killing is a frame argument: whatever `scheduler_purge` and `process_kill` do on the way, they
only touch threads that are gone at the end (`Spares`, `Kills`).

Creating a thread adds a fresh view. It also clears the control blocks behind the new one in
the same page; what that does to live threads is the `damage` of a `create` move.
-/

namespace Horizon

open StateError

variable {k k' k'' : Kernel} {uid v : ThreadUid} {dead : ThreadUid → Bool} {pid : Pid}

theorem Kills.trans_alike (h₁ : Kills dead k k') (h₂ : Alike k' k'') : Kills dead k k'' where
  toSpares := h₁.toSpares.trans (h₂.mono fun _ _ => rfl)
  killed u hu := by rw [h₂.live u rfl, h₁.killed u hu]

theorem Kills.alike_trans (h₁ : Alike k k') (h₂ : Kills dead k' k'') : Kills dead k k'' where
  toSpares := (h₁.mono fun _ _ => rfl).trans h₂.toSpares
  killed := h₂.killed

/-! ## Killing -/

theorem setThread_spares {t : Thread} (hdead : dead uid = true) :
    Spares dead k (k.setThread uid t) := by
  have hthread : ∀ u, dead u = false → (k.setThread uid t).thread u = k.thread u := by
    intro u hu
    rw [Kernel.thread_setThread, if_neg]
    rintro rfl
    rw [hdead] at hu
    cases hu
  refine ⟨fun u _ => Kernel.live_setThread, fun u hu => Kernel.live_setThread ▸ hu,
    fun u hu _ => by rw [hthread u hu], fun u hu _ => ?_, fun u _ _ i hi => ?_,
    fun u _ _ => Kernel.messages_setThread, rfl, fun hk p hp => ?_, rfl⟩
  · rw [Kernel.portOfUid, Kernel.portOfUid, Kernel.process_setThread, hthread u hu]
  · rw [Block.used, Kernel.process_setThread]
    exact hi
  · rw [Kernel.process_setThread]
    exact hk p hp

theorem modifyThread_spares {f : Thread → Thread} (hdead : dead uid = true) :
    Ensures (Spares dead) (modifyThread uid f) := .modify fun _ => setThread_spares hdead

theorem schedulerRemove_spares (hdead : dead uid = true) :
    Ensures (Spares dead) (schedulerRemove uid) :=
  .bind .get fun _ => .bind (dassertSome_does _).spares fun _ =>
    .bind (dassert_does _).spares fun _ => .bind .get fun _ =>
      .bind (dassert_does _).spares fun _ =>
        .bind (ringRemove_does _ _).spares fun _ => modifyThread_spares hdead

theorem threadsOf_self (pid : Pid) (tid : Tid) : threadsOf pid { pid, tid } = true :=
  decide_eq_true rfl

theorem purgeThreads_spares (pid : Pid) (l : List Tid) :
    Ensures (Spares (threadsOf pid)) (purgeThreads pid l) := by
  induction l with
  | nil => exact .pure _
  | cons tid rest ih =>
    refine .bind .get fun _ => .bind (.runIf ?_) fun _ => ih
    exact .bind (derefThread_does _).spares fun _ =>
      .runIf (schedulerRemove_spares (threadsOf_self pid tid))

theorem Kernel.live_freeThread : (k.freeThread uid).live v = (!decide (v = uid) && k.live v) := by
  rw [live, live, freeThread, blocks_setBlock]
  by_cases hpid : v.pid = uid.pid
  · rw [if_pos hpid, Block.live, bitmapTest_bitmapClear]
    have hiff : v.tid.toNat = uid.tid.toNat ↔ v = uid :=
      ⟨fun h => ThreadUid.ext hpid (BitVec.eq_of_toNat_eq h), fun h => by rw [h]⟩
    rw [decide_eq_decide.mpr hiff, ← hpid, ← Bool.and_assoc, ← Bool.and_assoc,
      Bool.and_comm (!decide (v = uid))]
    rfl
  · have hne : v ≠ uid := fun h => hpid (by rw [h])
    rw [if_neg hpid, decide_eq_false hne]
    rfl

theorem freeThread_kills : Kills (only uid) k (k.freeThread uid) := by
  have hblocks : ∀ p, ((k.freeThread uid).blocks p).threads = (k.blocks p).threads ∧
      ((k.freeThread uid).blocks p).messages = (k.blocks p).messages ∧
      ((k.freeThread uid).blocks p).process.msgInfo = (k.blocks p).process.msgInfo ∧
      ((k.freeThread uid).blocks p).process.pid = (k.blocks p).process.pid ∧
      ((k.freeThread uid).blocks p).process.version = (k.blocks p).process.version := by
    intro p
    rw [Kernel.freeThread, Kernel.blocks_setBlock]
    split
    · next hp => rw [hp]; exact ⟨rfl, rfl, rfl, rfl, rfl⟩
    · exact ⟨rfl, rfl, rfl, rfl, rfl⟩
  refine ⟨⟨fun u hu => ?_, fun u hu => ?_, fun u _ _ => ?_, fun u _ _ => ?_, fun u _ _ i hi => ?_,
    fun u _ _ => (hblocks u.pid).2.1, rfl, fun hk p hp => ?_, rfl⟩, fun u hu => ?_⟩
  · rw [only] at hu
    rw [Kernel.live_freeThread, hu]
    rfl
  · rw [Kernel.live_freeThread, Bool.and_eq_true] at hu
    exact hu.2
  · rw [Kernel.thread, Kernel.thread, (hblocks u.pid).1]
  · rw [Kernel.portOfUid, Kernel.portOfUid, Kernel.thread, Kernel.thread, portOf, portOf,
      (hblocks u.pid).1, (hblocks u.pid).2.2.2.1, (hblocks u.pid).2.2.2.2]
  · rw [Block.used, (hblocks u.pid).2.2.1]
    exact hi
  · rw [(hblocks p).2.2.2.1]
    exact hk p hp
  · rw [only] at hu
    rw [Kernel.live_freeThread, hu]
    rfl

theorem threadKill_eq_ok (h : threadKill uid k = .ok () k') :
    k.live uid = true ∧ k' = k.freeThread uid := by
  simp only [threadKill, get_bind_apply, bind_eq_ok, dassertSome_threadGet_eq_ok, dassert_eq_ok,
    modifyProcess, modify_eq_ok] at h
  obtain ⟨_, _, ⟨hlive, rfl, rfl⟩, _, _, ⟨-, rfl⟩, rfl⟩ := h
  exact ⟨hlive, rfl⟩

theorem threadKill_spares (hdead : dead uid = true) : Ensures (Spares dead) (threadKill uid) := by
  refine .bind .get fun _ => .bind (dassertSome_does _).spares fun _ =>
    .bind (dassert_does _).spares fun _ => .modify fun k => ?_
  have hkills : Kills (only uid) k (k.freeThread uid) := freeThread_kills
  refine hkills.toSpares.mono fun u hu => ?_
  rw [only, decide_eq_false_iff_not]
  rintro rfl
  rw [hdead] at hu
  cases hu

theorem killThreads_spares (pid : Pid) (l : List Tid) :
    Ensures (Spares (threadsOf pid)) (killThreads pid l) := by
  induction l with
  | nil => exact .pure _
  | cons tid rest ih =>
    exact .bind .get fun _ =>
      .bind (.runIf (threadKill_spares (threadsOf_self pid tid))) fun _ => ih

theorem Kernel.liveProcess_freeProcess {p : Pid} :
    (k.freeProcess pid).liveProcess p = (!decide (p = pid) && k.liveProcess p) := by
  rw [liveProcess, liveProcess, freeProcess, Bmstack.test_clear,
    decide_eq_decide.mpr (show p.toNat = pid.toNat ↔ p = pid from
      ⟨BitVec.eq_of_toNat_eq, fun h => by rw [h]⟩), Bool.and_left_comm]

theorem freeProcess_kills : Kills (threadsOf pid) k (k.freeProcess pid) := by
  have hlive : ∀ u, (k.freeProcess pid).live u = (!threadsOf pid u && k.live u) := by
    intro u
    rw [Kernel.live, Kernel.liveProcess_freeProcess, Bool.and_assoc]
    rfl
  refine ⟨⟨fun u hu => ?_, fun u hu => ?_, fun _ _ _ => rfl, fun _ _ _ => rfl,
    fun _ _ _ _ hi => hi, fun _ _ _ => rfl, rfl, fun hk p hp => ?_, rfl⟩, fun u hu => ?_⟩
  · rw [hlive, hu]
    rfl
  · rw [hlive, Bool.and_eq_true] at hu
    exact hu.2
  · rw [Kernel.liveProcess_freeProcess, Bool.and_eq_true] at hp
    exact hk p hp.2
  · rw [hlive, hu]
    rfl

theorem schedulerPurge_spares (pid : Pid) : Ensures (Spares (threadsOf pid)) (schedulerPurge pid) :=
  .bind .get fun _ => .bind (dassertSome_does _).spares fun _ =>
    purgeThreads_spares pid allTids

theorem processKill_eq_ok (h : processKill pid k = .ok () k') : Kills (threadsOf pid) k k' := by
  rw [processKill, get_bind_apply] at h
  obtain ⟨target, k₁, hproc, h⟩ := bind_eq_ok.mp h
  obtain ⟨_, k₂, hkill, h⟩ := bind_eq_ok.mp h
  rw [modify_bind_apply] at h
  obtain ⟨_, k₃, hdir, hunmap⟩ := bind_eq_ok.mp h
  rw [get_bind_apply] at hunmap
  have hbefore : Spares (threadsOf pid) k k₂ :=
    ((dassertSome_does _).still.ok hproc).toQuiet.spares.trans ((killThreads_spares _ _).ok hkill)
  have hafter : Alike (k₂.freeProcess pid) k' :=
    Spares.trans ((liftVm_does (pagingDirDestroy_does _)).still.ok hdir).toQuiet.spares
      ((virtualUnmap_does _ _ _).still.ok hunmap).toQuiet.spares
  have hfree : Kills (threadsOf pid) k₂ k' := freeProcess_kills.trans_alike hafter
  exact ⟨hbefore.trans hfree.toSpares, hfree.killed⟩

/-- After `scheduler_purge` and `process_kill` the threads of the process are gone. -/
theorem purgeAndKill_eq_ok (h : purgeAndKill pid k = .ok () k') : Kills (threadsOf pid) k k' := by
  obtain ⟨_, k₁, hpurge, hkill⟩ := bind_eq_ok.mp h
  have hkills := processKill_eq_ok hkill
  exact ⟨((schedulerPurge_spares pid).ok hpurge).trans hkills.toSpares, hkills.killed⟩

/-- The threads that die with `uid`. -/
def killSet (uid : ThreadUid) : ThreadUid → Bool :=
  if uid.tid = 0 then threadsOf uid.pid else only uid

theorem killSet_self (uid : ThreadUid) : killSet uid uid = true := by
  unfold killSet
  split <;> exact decide_eq_true rfl

theorem tkillTarget_eq_ok (h : tkillTarget uid k = .ok () k') : Kills (killSet uid) k k' := by
  unfold tkillTarget at h
  unfold killSet
  split at h
  · next htid =>
    rw [if_pos htid]
    exact purgeAndKill_eq_ok h
  · next htid =>
    rw [if_neg htid]
    obtain ⟨_, k₁, hremove, hkill⟩ := bind_eq_ok.mp h
    obtain ⟨-, rfl⟩ := threadKill_eq_ok hkill
    have hspares : Spares (only uid) k k₁ :=
      (schedulerRemove_spares (decide_eq_true rfl)).ok hremove
    exact ⟨hspares.trans freeThread_kills.toSpares, freeThread_kills.killed⟩

theorem internalTkill_eq_ok (h : internalTkill uid k = .ok () k') : Kills (killSet uid) k k' := by
  simp only [internalTkill, get_bind_apply, bind_eq_ok] at h
  obtain ⟨_, k₁, hlock, _, k₂, hkill, hunlock⟩ := h
  have hquiet₁ := (Ensures.runIf schedulerLock_does.quiet).ok hlock
  have hquiet₂ := unlockIfLocked_does.quiet.ok hunlock
  exact (Kills.alike_trans hquiet₁.spares (tkillTarget_eq_ok hkill)).trans_alike hquiet₂.spares

/-- A fault inside the kernel while no thread is running stops the machine. -/
theorem internalTkill_zero : internalTkill 0 k ≠ .ok () k' := by
  intro h
  simp only [internalTkill, get_bind_apply, bind_eq_ok] at h
  obtain ⟨_, k₁, -, _, k₂, hkill, -⟩ := h
  simp only [tkillTarget, ThreadUid.zero_tid, ThreadUid.zero_pid, if_true, purgeAndKill,
    schedulerPurge, get_bind_apply, bind_eq_ok, dassertSome, orThrow_eq_ok,
    Kernel.processGet_eq_some] at hkill
  obtain ⟨_, _, ⟨_, _, ⟨⟨hlive, -⟩, -⟩, -⟩, -⟩ := hkill
  simp [Kernel.liveProcess] at hlive

/-! ## Creating -/

/-- Nothing outside one process has changed. -/
structure Elsewhere (pid : Pid) (k k' : Kernel) : Prop where
  block : ∀ p, p ≠ pid → k'.blocks p = k.blocks p
  map : ∀ p, p ≠ pid → k'.liveProcess p = k.liveProcess p
  history : k'.history = k.history
  services : k'.serviceIds = k.serviceIds

instance : Std.Refl (Elsewhere pid) where
  refl _ := ⟨fun _ _ => rfl, fun _ _ => rfl, rfl, rfl⟩

instance : IsTrans Kernel (Elsewhere pid) where
  trans _ _ _ h₁ h₂ :=
    ⟨fun p hp => (h₂.block p hp).trans (h₁.block p hp),
      fun p hp => (h₂.map p hp).trans (h₁.map p hp), h₂.history.trans h₁.history,
      h₂.services.trans h₁.services⟩

theorem OnlyMemory.elsewhere (h : OnlyMemory k k') : Elsewhere pid k k' := by
  rw [h.eq]
  exact ⟨fun _ _ => rfl, fun _ _ => rfl, rfl, rfl⟩

theorem elsewhere_setBlock {b : Block} : Elsewhere pid k (k.setBlock pid b) :=
  ⟨fun _ hp => Function.update_of_ne hp _ _, fun _ _ => rfl, rfl, rfl⟩

theorem Elsewhere.live (h : Elsewhere pid k k') (hu : uid.pid ≠ pid) :
    k'.live uid = k.live uid := by
  rw [Kernel.live, Kernel.live, h.block _ hu, h.map _ hu]

/-- A process that has no live thread does not matter for the mail. -/
theorem Elsewhere.alike (h : Elsewhere pid k k') (hbefore : ∀ tid, k.live { pid, tid } = false)
    (hafter : ∀ tid, k'.live { pid, tid } = false) (hname : (k'.blocks pid).process.pid = pid) :
    Alike k k' := by
  have hne : ∀ u, k.live u = true → u.pid ≠ pid := by
    rintro u hu rfl
    rw [hbefore u.tid] at hu
    cases hu
  have hlive : ∀ u, k'.live u = k.live u := by
    intro u
    by_cases hu : u.pid = pid
    · subst hu
      rw [hbefore u.tid, hafter u.tid]
    · exact h.live hu
  refine ⟨fun u _ => hlive u, fun u hu => hlive u ▸ hu, fun u _ hu => ?_, fun u _ hu => ?_,
    fun u _ hu i hi => ?_, fun u _ hu => by rw [h.block _ (hne u hu)], h.history, fun hk p hp => ?_,
    h.services⟩
  · rw [Kernel.thread, Kernel.thread, h.block _ (hne u hu)]
  · rw [Kernel.portOfUid, Kernel.portOfUid, Kernel.thread, Kernel.thread, h.block _ (hne u hu)]
  · rwa [h.block _ (hne u hu)]
  · by_cases hpid : p = pid
    · rw [hpid, hname]
    · rw [h.block p hpid]
      exact hk p (h.map p hpid ▸ hp)

/-- What `process_new` leaves behind: a live process without threads. -/
structure NewProcess (pid : Pid) (k k' : Kernel) : Prop extends Elsewhere pid k k' where
  free : k.liveProcess pid = false
  name : (k'.blocks pid).process.pid = pid
  threadInfo : (k'.blocks pid).process.threadInfo = {}

theorem processNew_eq_ok {ppid : Pid} {entry : Word} (h : processNew ppid entry k = .ok pid k') :
    NewProcess pid k k' := by
  simp only [processNew, get_bind_apply, modify_bind_apply, bind_eq_ok, dassertSome,
    orThrow_eq_ok, failIf_eq_ok, pure_eq_ok, modifyProcess] at h
  obtain ⟨⟨index, map⟩, _, ⟨hfound, rfl⟩, _, _, ⟨hindex, rfl⟩, _, k₁, halloc, dir, k₂, hdir, hpid,
    rfl⟩ := h
  subst hpid
  have hlt : index < 1024 := Nat.lt_of_not_le hindex
  obtain ⟨hfree, rfl⟩ := Bmstack.findAndSet_eq_some hfound
  have htoNat : (BitVec.ofNat 10 index).toNat = index := by
    rw [BitVec.toNat_ofNat, Nat.mod_eq_of_lt hlt]
  have hmem₁ := (virtualAlloc_does _ _ _).onlyMemory.ok halloc
  have hmem₂ := (liftVm_does pagingDirCreate_does).onlyMemory.ok hdir
  have hset : Elsewhere (BitVec.ofNat 10 index) k { k with blockMap := k.blockMap.set index } := by
    refine ⟨fun _ _ => rfl, fun p hp => ?_, rfl, rfl⟩
    have hne : p.toNat ≠ index := fun h => hp (BitVec.eq_of_toNat_eq (by rw [h, htoNat]))
    rw [Kernel.liveProcess, Kernel.liveProcess, Bmstack.test_set, decide_eq_false hne,
      Bool.false_or]
  refine ⟨?_, ?_, ?_, ?_⟩
  · refine IsTrans.trans _ _ _ hset (IsTrans.trans _ _ _ hmem₁.elsewhere ?_)
    refine IsTrans.trans _ _ _ ?_ (IsTrans.trans _ _ _ hmem₂.elsewhere elsewhere_setBlock)
    exact ⟨fun _ hp => Function.update_of_ne hp _ _, fun _ _ => rfl, rfl, rfl⟩
  · rw [Kernel.liveProcess, htoNat, hfree, Bool.and_false]
  · rw [Kernel.blocks_setBlock, if_pos rfl]
  · rw [Kernel.blocks_setBlock, if_pos rfl, hmem₂.eq]
    show (Block.process _).threadInfo = _
    rw [Kernel.blocks_setBlock, if_pos rfl]

theorem NewProcess.not_live (h : NewProcess pid k k') (huid : uid.pid = pid) :
    k'.live uid = false := by
  subst huid
  rw [Kernel.live, Block.live, h.threadInfo, Bool.and_eq_false_iff]
  exact Or.inr ((bitmapTest_eq _ _).trans BitVec.getLsbD_zero)

theorem NewProcess.alike (h : NewProcess pid k k') : Alike k k' := by
  refine h.toElsewhere.alike (fun tid => ?_) (fun tid => h.not_live rfl) h.name
  rw [Kernel.live, h.free]
  rfl

/-- The block of a process after a thread has been created in slot `index`. -/
def Block.addThread (b : Block) (pid : Pid) (index : Nat) (entry : Word) : Block where
  process := { b.process with
    threadInfo :=
      { bitmap := bitmapSet b.process.threadInfo.bitmap index
        versions := Function.update b.process.threadInfo.versions index
          (nextVersion (b.process.threadInfo.versions index))
        count := b.process.threadInfo.count + 1 } }
  messages := b.messages
  threads := Function.update (b.wipeThreads index) (BitVec.ofNat 6 index)
    { tid := BitVec.ofNat 6 index
      version := nextVersion (b.process.threadInfo.versions index)
      owner := pid
      task := { entry := if entry ≠ 0 then entry else b.process.entry } }

theorem toNat_ofNat_tid {index : Nat} (h : index < processThreadMax) :
    (BitVec.ofNat 6 index).toNat = index := by
  rw [BitVec.toNat_ofNat]
  exact Nat.mod_eq_of_lt h

theorem threadNew_eq_ok {entry : Word} (h : threadNew pid entry k = .ok uid k') :
    ∃ index, index < processThreadMax ∧ uid = { pid, tid := BitVec.ofNat 6 index } ∧
      k.liveProcess pid = true ∧ (k.blocks pid).live uid.tid = false ∧
      OnlyMemory (k.setBlock pid ((k.blocks pid).addThread pid index entry)) k' := by
  simp only [threadNew, get_bind_apply, modify_bind_apply, bind_eq_ok, dassertSome,
    orThrow_eq_ok, failIf_eq_ok, pure_eq_ok, modifyProcess, modifyThread,
    Kernel.processGet_eq_some] at h
  obtain ⟨_, _, ⟨⟨hlive, rfl⟩, rfl⟩, index, _, ⟨hfound, rfl⟩, _, _, ⟨hindex, rfl⟩, _, k₁, halloc,
    huid, rfl⟩ := h
  have hlt : index < processThreadMax := Nat.lt_of_not_le hindex
  have hword : index / 32 < bitmapLength processThreadMax := by
    simp only [processThreadMax, bitmapLength, bitmapBits] at *
    omega
  -- The search runs on the words of the bitmap, the update on the bitmap itself.
  have hagree : ∀ i < bitmapLength processThreadMax,
      (k.blocks pid).process.threadWords i = (k.blocks pid).process.threadInfo.bitmap i :=
    fun i hi => if_pos hi
  obtain ⟨hfree, hwords⟩ := bitmapFindAndSet_eq_some (Prod.ext hfound rfl)
  rw [bitmapTest_of_agree hagree hword] at hfree
  refine ⟨index, hlt, huid.symm, hlive, ?_, ?_⟩
  · rw [Block.live, ← huid, toNat_ofNat_tid hlt]
    exact hfree
  · have hmem := (virtualAlloc_does _ _ _).onlyMemory.ok halloc
    have hblocks : k₁.blocks pid = { k.blocks pid with
        process := { (k.blocks pid).process with
          threadInfo := { (k.blocks pid).process.threadInfo with
            bitmap := bitmapSet (k.blocks pid).process.threadInfo.bitmap index } } } := by
      rw [hmem.eq]
      refine (Kernel.blocks_setBlock).trans ((if_pos rfl).trans ?_)
      simp only [hwords, bitmapSet_of_agree hagree hword]
    have hnew : ∀ b : Block, b.wipeThreads index (BitVec.ofNat 6 index) = {} :=
      fun b => if_pos (toNat_ofNat_tid hlt)
    refine ⟨?_⟩
    simp only [Kernel.setThread, Kernel.thread, Kernel.setBlock, Block.setThread,
      Function.update_self, Function.update_idem, hblocks, hnew]
    rw [hmem.eq]
    simp only [Kernel.setBlock, Function.update_idem]
    rfl

/-- Threads that lose their queue, or keep it, leave proper queues behind. -/
theorem Block.Linked.forget {b b' : Block} {on on' : Tid → Prop} (h : b.Linked on)
    (hmessages : b'.messages = b.messages) (hused : b'.used = b.used)
    (hinfo : ∀ t, on' t → (b'.info t).count = 0 ∨ on t ∧ b'.info t = b.info t) : b'.Linked on' := by
  have hnext : b'.next = b.next := by
    funext i
    rw [next, next, hmessages]
  have hslots : ∀ t, on' t → b'.slots t = [] ∨ on t ∧ b'.slots t = b.slots t := by
    intro t ht
    rcases hinfo t ht with h0 | ⟨hon, hsame⟩
    · left
      rw [slots, h0]
      rfl
    · right
      rw [slots, slots, hsame, hnext]
      exact ⟨hon, rfl⟩
  -- An emptied chain is proper and meets no other one; the rest are as before.
  refine ⟨fun t ht => ?_, fun t₁ t₂ h₁ h₂ hne => ?_⟩
  · rcases hinfo t ht with h0 | ⟨hon, hsame⟩
    · have hnil : b'.slots t = [] := by
        rw [slots, h0]
        rfl
      rw [hnil]
      exact ⟨h0, by simp, by simp, by simp⟩
    · have hsl : b'.slots t = b.slots t := by rw [slots, slots, hsame, hnext]
      rw [hsl]
      refine (h.queued t hon).frame hsame (fun i _ => by rw [hnext]) fun i hi => ?_
      rw [hused]
      exact ((h.queued t hon).slot i hi).2
  · rcases hslots t₁ h₁ with hnil | ⟨hon₁, hs₁⟩
    · rw [hnil]
      exact List.disjoint_nil_left _
    · rcases hslots t₂ h₂ with hnil | ⟨hon₂, hs₂⟩
      · rw [hnil]
        exact List.disjoint_nil_right _
      · rw [hs₁, hs₂]
        exact h.disjoint t₁ t₂ hon₁ hon₂ hne

/-- Clearing the front of a control block clears the message count with the links. -/
theorem Thread.msgInfo_wipe (t : Thread) (n : Nat) :
    (t.wipe n).msgInfo.count = 0 ∨ (t.wipe n).msgInfo = t.msgInfo := by
  by_cases h : 92 < n
  · exact Or.inl (if_pos h)
  · right
    have hhead : ¬ 96 < n := by omega
    have htail : ¬ 98 < n := by omega
    simp only [wipe, if_neg h, if_neg hhead, if_neg htail]

namespace Block

variable {b : Block} {index : Nat} {entry : Word}

theorem threads_addThread_self : (b.addThread pid index entry).threads (BitVec.ofNat 6 index) =
      { tid := BitVec.ofNat 6 index
        version := nextVersion (b.process.threadInfo.versions index)
        owner := pid
        task := { entry := if entry ≠ 0 then entry else b.process.entry } } :=
  Function.update_self ..

theorem threads_addThread {t : Tid} (h : index < processThreadMax) (ht : t ≠ BitVec.ofNat 6 index) :
    (b.addThread pid index entry).threads t =
      if index < t.toNat then
        (b.threads t).wipe (pagesEnd (threadOffset index) threadSize - threadOffset t.toNat)
      else b.threads t := by
  have hne : t.toNat ≠ index := fun heq =>
    ht (BitVec.eq_of_toNat_eq (by rw [heq, toNat_ofNat_tid h]))
  rw [addThread]
  exact (Function.update_of_ne ht _ _).trans (if_neg hne)

theorem live_addThread {t : Tid} (h : index < processThreadMax) :
    (b.addThread pid index entry).live t = (decide (t = BitVec.ofNat 6 index) || b.live t) := by
  rw [live, live, ← decide_eq_decide.mpr (show t.toNat = index ↔ t = BitVec.ofNat 6 index from
    ⟨fun heq => BitVec.eq_of_toNat_eq (by rw [heq, toNat_ofNat_tid h]),
      fun heq => by rw [heq, toNat_ofNat_tid h]⟩)]
  exact bitmapTest_bitmapSet _ _ _

theorem linked_addThread (h : index < processThreadMax) {on on' : Tid → Prop} (hb : b.Linked on)
    (hon : ∀ t, on' t → t ≠ BitVec.ofNat 6 index → on t) :
    (b.addThread pid index entry).Linked on' := by
  refine hb.forget rfl rfl fun t ht => ?_
  by_cases hnew : t = BitVec.ofNat 6 index
  · subst hnew
    left
    rw [info, threads_addThread_self]
  · rw [info, threads_addThread h hnew]
    split
    · rcases Thread.msgInfo_wipe (b.threads t) _ with h0 | hsame
      · exact Or.inl h0
      · exact Or.inr ⟨hon t ht hnew, hsame⟩
    · exact Or.inr ⟨hon t ht hnew, rfl⟩

end Block

theorem Kernel.live_addThread {index : Nat} {entry : Word} (hindex : index < processThreadMax)
    (hproc : k.liveProcess pid = true) :
    (k.setBlock pid ((k.blocks pid).addThread pid index entry)).live v =
      (decide (v = { pid, tid := BitVec.ofNat 6 index }) || k.live v) := by
  have hmap : (k.setBlock pid ((k.blocks pid).addThread pid index entry)).liveProcess v.pid =
      k.liveProcess v.pid := rfl
  rw [live, live, hmap, blocks_setBlock]
  by_cases hv : v.pid = pid
  · rw [if_pos hv, hv, Block.live_addThread hindex, hproc, Bool.true_and, Bool.true_and,
      decide_eq_decide.mpr (show v.tid = BitVec.ofNat 6 index ↔
        v = { pid, tid := BitVec.ofNat 6 index } from
        ⟨fun ht => ThreadUid.ext hv ht, fun h => by rw [h]⟩)]
  · have hne : v ≠ { pid, tid := BitVec.ofNat 6 index } := fun h => hv (by rw [h])
    rw [if_neg hv, decide_eq_false hne, Bool.false_or]

/-- A thread has been created in a free slot. Threads with a higher TID in the same process
may have been damaged. -/
structure Creates (uid : ThreadUid) (k k' : Kernel) : Prop where
  free : k.live uid = false
  live : ∀ v, k'.live v = (decide (v = uid) || k.live v)
  linked : k.Linked nobody → k'.Linked nobody
  named : k.Named → k'.Named
  history : k'.history = k.history
  new : ∃ port, k'.view uid = some { View.new port with state := .new } ∧
    (k.Named → port.pid = uid.pid) ∧ port.tid = uid.tid
  other : ∀ v, v ≠ uid → ¬(v.pid = uid.pid ∧ uid.tid < v.tid) → k'.view v = k.view v

theorem Creates.trans_alike (h₁ : Creates uid k k') (h₂ : Alike k' k'') : Creates uid k k'' where
  free := h₁.free
  live v := (h₂.live v rfl).trans (h₁.live v)
  linked hk := h₂.linked (h₁.linked hk)
  named hk := h₂.named (h₁.named hk)
  history := h₂.history.trans h₁.history
  new := by
    obtain ⟨port, hview, hport⟩ := h₁.new
    exact ⟨port, (congrArg (fun m : Mail => m.view uid) h₂.mail).trans hview, hport⟩
  other v hv hd := (congrArg (fun m : Mail => m.view v) h₂.mail).trans (h₁.other v hv hd)

/-- `thread_new` as a step of the mailboxes: a new empty one, with those it damages. -/
theorem threadNew_creates {entry : Word} (h : threadNew pid entry k = .ok uid k') :
    uid.pid = pid ∧ Creates uid k k' := by
  obtain ⟨index, hindex, rfl, hproc, hfree, hmem⟩ := threadNew_eq_ok h
  refine ⟨rfl, Creates.trans_alike ?_ hmem.still.toQuiet.spares⟩
  set b := (k.blocks pid).addThread pid index entry with hb
  have hblocks : ∀ p, p ≠ pid → (k.setBlock pid b).blocks p = k.blocks p :=
    fun p hp => Kernel.blocks_setBlock.trans (if_neg hp)
  have hself : (k.setBlock pid b).blocks pid = b := Kernel.blocks_setBlock.trans (if_pos rfl)
  have hlive : ∀ v, (k.setBlock pid b).live v =
      (decide (v = { pid, tid := BitVec.ofNat 6 index }) || k.live v) :=
    fun v => Kernel.live_addThread hindex hproc
  refine ⟨?_, hlive, fun hk p => ?_, fun hk p hp => ?_, rfl, ?_, fun v hv hd => ?_⟩
  · rw [Kernel.live, hfree, Bool.and_false]
  · by_cases hp : p = pid
    · subst hp
      rw [hself]
      refine Block.linked_addThread hindex (hk p) fun t ht hne => ⟨?_, rfl⟩
      have := ht.1
      rw [hlive, Bool.or_eq_true, decide_eq_true_eq] at this
      exact this.resolve_left fun h => hne (by injection h)
    · rw [hblocks p hp]
      refine (hk p).mono fun t ht => ⟨?_, rfl⟩
      have := ht.1
      rw [hlive, Bool.or_eq_true, decide_eq_true_eq] at this
      exact this.resolve_left fun h => hp (by injection h)
  · by_cases hpid : p = pid
    · subst hpid
      rw [hself]
      exact hk p hp
    · rw [hblocks p hpid]
      exact hk p hp
  · -- The mailbox of the new thread is empty and carries its port.
    have hnew : (k.setBlock pid b).thread { pid, tid := BitVec.ofNat 6 index } =
        { tid := BitVec.ofNat 6 index
          version := nextVersion ((k.blocks pid).process.threadInfo.versions index)
          owner := pid
          task := { entry := if entry ≠ 0 then entry else (k.blocks pid).process.entry } } := by
      rw [Kernel.thread, hself]
      exact Block.threads_addThread_self
    have hqueue : b.queue (BitVec.ofNat 6 index) = [] := by
      rw [Block.queue, Block.slots, Block.info, hb, Block.threads_addThread_self]
      rfl
    refine ⟨portOf b.process ((k.setBlock pid b).thread { pid, tid := BitVec.ofNat 6 index }), ?_,
      fun hk => hk pid hproc, by rw [hnew]; rfl⟩
    rw [Kernel.view_of_live (by rw [hlive, decide_eq_true rfl, Bool.true_or]), Kernel.portOfUid,
      hself, hqueue, hnew]
    rfl
  · -- A thread before the new one in its process, or in another one, keeps its mailbox.
    have hlive' : (k.setBlock pid b).live v = k.live v := by
      rw [hlive, decide_eq_false hv, Bool.false_or]
    by_cases hp : v.pid = pid
    · have htid : v.tid ≠ BitVec.ofNat 6 index := fun h => hv (ThreadUid.ext hp h)
      have hlow : ¬ index < v.tid.toNat := by
        intro hlt
        refine hd ⟨hp, ?_⟩
        rw [BitVec.lt_def, toNat_ofNat_tid hindex]
        exact hlt
      have hthread : (k.setBlock pid b).thread v = k.thread v := by
        rw [Kernel.thread, Kernel.thread, hp, hself, hb, Block.threads_addThread hindex htid,
          if_neg hlow]
      have hqueue : ((k.setBlock pid b).blocks v.pid).queue v.tid = (k.blocks v.pid).queue v.tid := by
        have hinfo : ((k.setBlock pid b).blocks v.pid).info v.tid = (k.blocks v.pid).info v.tid :=
          congrArg Thread.msgInfo hthread
        rw [Block.queue, Block.queue, Block.slots, Block.slots, hinfo, hp, hself]
        rfl
      rw [Kernel.view, Kernel.view, hlive', hthread, hqueue, Kernel.portOfUid, Kernel.portOfUid,
        hthread, hp, hself]
      rfl
    · rw [Kernel.view, Kernel.view, hlive', Kernel.portOfUid, Kernel.portOfUid, Kernel.thread,
        Kernel.thread, hblocks _ hp]

end Horizon
