import Horizon.System.MailView

/-!
# Horizon — what the building blocks do to the mail

One lemma for each function that message passing is made of: waking, blocking, putting to
sleep, queueing, removing and searching. `Becomes k k' m` says that `k'` is a sound successor
of `k` whose mail is `m`.

Delivery is the one place where soundness can be lost: a message put in front of the queue of
a thread that never had one is linked to slot 0 (`FirstWake`).
-/

namespace Horizon

open StateError

variable {k k' k'' : Kernel} {uid v : ThreadUid} {off dead : ThreadUid → Bool} {m m' : Mail}

structure Becomes (k k' : Kernel) (m : Mail) : Prop where
  mail : k'.mail = m
  linked : k.Linked nobody → k'.Linked nobody
  named : k.Named → k'.Named
  live : ∀ u, k'.live u = true → k.live u = true
  closed : ∀ u, k'.live u = true → k.Closed u → k'.Closed u

/-- What the rest of a handler relies on: whoever waits on an untouched queue did so before, and
ports and services mean what they meant. -/
structure Steady (k k' : Kernel) : Prop where
  waiting : ∀ u, k'.live u = true → ¬k'.Closed u → (k'.thread u).state = .waiting →
    (k.thread u).state = .waiting ∧
      (k'.thread u).syscallInfo.waitFor = (k.thread u).syscallInfo.waitFor
  port : ∀ u, k'.live u = true → k'.portOfUid u = k.portOfUid u
  services : k'.serviceIds = k.serviceIds

/-- One of the messages in `handed` would be put in front of an untouched queue. -/
def FirstWake (handed : ThreadUid → IpcPort → Prop) (k : Kernel) : Prop :=
  ∃ u sender, handed u sender ∧ k.live u = true ∧ (k.thread u).wokenBy sender = true ∧ ¬k.Closed u

namespace Becomes

theorem trans (h₁ : Becomes k k' m) (h₂ : Becomes k' k'' m') : Becomes k k'' m' where
  mail := h₂.mail
  linked h := h₂.linked (h₁.linked h)
  named h := h₂.named (h₁.named h)
  live u hu := h₁.live u (h₂.live u hu)
  closed u hu hc := h₂.closed u hu (h₁.closed u (h₂.live u hu) hc)

end Becomes

theorem Steady.trans (hlive : ∀ u, k''.live u = true → k'.live u = true)
    (hclosed : ∀ u, k''.live u = true → k'.Closed u → k''.Closed u)
    (h₁ : Steady k k') (h₂ : Steady k' k'') : Steady k k'' where
  waiting u hu hfresh hwait := by
    obtain ⟨hwait', hfor'⟩ := h₂.waiting u hu hfresh hwait
    obtain ⟨hwait'', hfor''⟩ :=
      h₁.waiting u (hlive u hu) (fun hc => hfresh (hclosed u hu hc)) hwait'
    exact ⟨hwait'', hfor'.trans hfor''⟩
  port u hu := (h₂.port u hu).trans (h₁.port u (hlive u hu))
  services := h₂.services.trans h₁.services

theorem Thread.wokenBy_eq_true {t : Thread} {port : IpcPort} : t.wokenBy port = true ↔
      t.state = .waiting ∧ portCompare t.syscallInfo.waitFor port = true := by
  simp only [Thread.wokenBy, decide_eq_true_eq]

theorem FirstWake.of_becomes {handed : ThreadUid → IpcPort → Prop} (h : Becomes k k' m)
    (hn : Steady k k') (hw : FirstWake handed k') : FirstWake handed k := by
  obtain ⟨u, sender, hhanded, hlive, hwoken, hfresh⟩ := hw
  rw [Thread.wokenBy_eq_true] at hwoken
  obtain ⟨hwait, hfor⟩ := hn.waiting u hlive hfresh hwoken.1
  refine ⟨u, sender, hhanded, h.live u hlive, ?_, fun hc => hfresh (h.closed u hlive hc)⟩
  rw [Thread.wokenBy_eq_true, ← hfor]
  exact ⟨hwait, hwoken.2⟩

namespace Kills

theorem becomes (h : Kills dead k k') : Becomes k k' (k.mail.remove dead) where
  mail := h.mail
  linked hk := h.linked hk fun _ _ hu => hu
  named := h.named
  live := h.gone
  closed u hu hc := by
    obtain ⟨hspared, hlive⟩ := h.spared hu
    exact (h.closed_iff hspared hlive).mpr hc

theorem steady (h : Kills dead k k') : Steady k k' where
  waiting u hu _ hwait := by
    obtain ⟨hspared, hlive⟩ := h.spared hu
    rw [h.state hspared hlive] at hwait
    exact ⟨hwait, h.waitFor hspared hlive⟩
  port u hu := by
    obtain ⟨hspared, hlive⟩ := h.spared hu
    exact h.port u hspared hlive
  services := h.services

end Kills

namespace Spares

theorem becomes (h : Alike k k') : Becomes k k' k.mail := h.kills.becomes

theorem steady (h : Alike k k') : Steady k k' := h.kills.steady

end Spares

/-! ## Updating one thread -/

namespace Kernel

variable {t : Thread}

theorem live_setThread : (k.setThread uid t).live v = k.live v := by
  rw [live, live, Block.live, Block.live, process_setThread]
  rfl

theorem setThread_setThread {t' : Thread} :
    (k.setThread uid t).setThread uid t' = k.setThread uid t' := by
  simp only [setThread, setBlock, Block.setThread, Function.update_self, Function.update_idem]

theorem info_setThread (h : t.msgInfo = (k.thread uid).msgInfo) :
    ((k.setThread uid t).blocks v.pid).info v.tid = (k.blocks v.pid).info v.tid := by
  show ((k.setThread uid t).thread v).msgInfo = (k.thread v).msgInfo
  rw [thread_setThread]
  split
  · next hv => rw [h, hv]
  · rfl

theorem slots_setThread (h : t.msgInfo = (k.thread uid).msgInfo) :
    ((k.setThread uid t).blocks v.pid).slots v.tid = (k.blocks v.pid).slots v.tid := by
  have hnext : ((k.setThread uid t).blocks v.pid).next = (k.blocks v.pid).next := by
    funext i
    rw [Block.next, Block.next, messages_setThread]
  rw [Block.slots, Block.slots, info_setThread h, hnext]

theorem queue_setThread (h : t.msgInfo = (k.thread uid).msgInfo) :
    ((k.setThread uid t).blocks v.pid).queue v.tid = (k.blocks v.pid).queue v.tid := by
  rw [Block.queue, Block.queue, slots_setThread h]
  refine List.map_congr_left fun i _ => ?_
  rw [Block.envelope, Block.envelope, messages_setThread]

theorem linked_setThread (h : t.msgInfo = (k.thread uid).msgInfo) (hk : k.Linked off) :
    (k.setThread uid t).Linked off := by
  have hslots : ∀ pid tid, ((k.setThread uid t).blocks pid).slots tid =
      (k.blocks pid).slots tid := fun pid tid => slots_setThread (v := { pid, tid }) h
  intro pid
  refine ⟨fun tid ht => ?_, fun t₁ t₂ h₁ h₂ hne => ?_⟩
  · have hq := (hk pid).queued tid ⟨live_setThread ▸ ht.1, ht.2⟩
    rw [hslots]
    refine hq.frame (info_setThread (v := { pid, tid }) h) (fun i _ => ?_) fun i hi => ?_
    · rw [Block.next, Block.next, messages_setThread]
    · rw [Block.used, process_setThread]
      exact (hq.slot i hi).2
  · rw [hslots, hslots]
    exact (hk pid).disjoint t₁ t₂ ⟨live_setThread ▸ h₁.1, h₁.2⟩ ⟨live_setThread ▸ h₂.1, h₂.2⟩ hne

theorem portOfUid_setThread (htid : t.tid = (k.thread uid).tid)
    (hver : t.version = (k.thread uid).version) :
    (k.setThread uid t).portOfUid v = k.portOfUid v := by
  rw [portOfUid, portOfUid, process_setThread, thread_setThread]
  split
  · next hv => rw [portOf, portOf, htid, hver, hv]
  · rfl

theorem mail_setThread (hinfo : t.msgInfo = (k.thread uid).msgInfo)
    (htid : t.tid = (k.thread uid).tid) (hver : t.version = (k.thread uid).version) :
    (k.setThread uid t).mail = k.mail.modify uid fun w =>
      { w with
        state := t.state
        waitFor := t.syscallInfo.waitFor
        payloadAddr := t.syscallInfo.payloadAddr
        payloadSize := t.syscallInfo.payloadSize } := by
  refine Mail.ext (funext fun v => ?_) rfl
  rw [Mail.view_modify]
  show (k.setThread uid t).view v = if v = uid then (k.view v).map _ else k.view v
  unfold view
  rw [live_setThread, queue_setThread hinfo, thread_setThread, portOfUid_setThread htid hver]
  by_cases hv : v = uid
  · subst hv
    simp only [if_true]
    cases k.live v <;> rfl
  · rw [if_neg hv, if_neg hv]

theorem setThread_becomes (hinfo : t.msgInfo = (k.thread uid).msgInfo)
    (htid : t.tid = (k.thread uid).tid) (hver : t.version = (k.thread uid).version) :
    Becomes k (k.setThread uid t) (k.mail.modify uid fun w =>
      { w with
        state := t.state
        waitFor := t.syscallInfo.waitFor
        payloadAddr := t.syscallInfo.payloadAddr
        payloadSize := t.syscallInfo.payloadSize }) where
  mail := mail_setThread hinfo htid hver
  linked := linked_setThread hinfo
  named hk pid hpid := by
    rw [process_setThread]
    exact hk pid hpid
  live u hu := live_setThread ▸ hu
  closed u _ hc := by
    rw [Closed, Block.Closed, info_setThread hinfo]
    exact hc

theorem setThread_steady (hstate : t.state ≠ .waiting) (htid : t.tid = (k.thread uid).tid)
    (hver : t.version = (k.thread uid).version) : Steady k (k.setThread uid t) where
  waiting u _ _ hwait := by
    rw [thread_setThread] at hwait ⊢
    split at hwait
    · exact absurd hwait hstate
    · next hne => exact ⟨hwait, by rw [if_neg hne]⟩
  port u _ := portOfUid_setThread htid hver
  services := rfl

theorem quiet_setThread_congr {t' : Thread} (h : Quiet k k') (ht : t'.core = t.core) :
    Quiet (k.setThread uid t) (k'.setThread uid t') where
  thread u := by
    rw [thread_setThread, thread_setThread]
    split
    · exact ht
    · exact h.thread u
  process pid := by
    rw [process_setThread, process_setThread]
    exact h.process pid
  messages pid := by
    rw [messages_setThread, messages_setThread]
    exact h.messages pid
  blockMap := h.blockMap
  history := h.history
  services := h.services

end Kernel

/-! ## The scheduler -/

/-- Memory and the scheduler lock are as before. -/
structure Fixed (k k' : Kernel) : Prop where
  vm : k'.vm = k.vm
  locked : k'.locked = k.locked

instance : Std.Refl Fixed where
  refl _ := ⟨rfl, rfl⟩

instance : IsTrans Kernel Fixed where
  trans _ _ _ h₁ h₂ := ⟨h₂.vm.trans h₁.vm, h₂.locked.trans h₁.locked⟩

theorem modifyThread_fixed (uid : ThreadUid) (f : Thread → Thread) :
    Ensures Fixed (modifyThread uid f) := .modify fun _ => ⟨rfl, rfl⟩

theorem derefThread_fixed (uid : ThreadUid) : Ensures Fixed (derefThread uid) :=
  .bind .get fun _ => .orThrow _ _

theorem ringRemove_fixed (uid : ThreadUid) (sched : SchedInfo) :
    Ensures Fixed (ringRemove uid sched) := by
  refine .ite (.modify fun _ => ⟨rfl, rfl⟩) (.bind .get fun _ =>
    .bind (.runIf (.modify fun _ => ⟨rfl, rfl⟩)) fun _ => ?_)
  exact .bind (derefThread_fixed _) fun _ => .bind (derefThread_fixed _) fun _ =>
    .bind (modifyThread_fixed _ _) fun _ => modifyThread_fixed _ _

/-- One thread has been changed by `f`; the rest is as it was. -/
def Adjusts (uid : ThreadUid) (f : Thread → Thread) (k k' : Kernel) : Prop :=
  Quiet (k.setThread uid (f (k.thread uid))) k'

namespace Adjusts

variable {f g : Thread → Thread}

theorem congr (h : Adjusts uid f k k') (hfg : ∀ t, (f t).core = (g t).core) : Adjusts uid g k k' :=
  Quiet.trans (Kernel.quiet_setThread_congr (.refl k) (hfg _)) h

theorem trans (h₁ : Adjusts uid f k k') (h₂ : Adjusts uid g k' k'')
    (hg : ∀ t, (g t).core = g t.core) : Adjusts uid (fun t => g (f t)) k k'' := by
  have hcore : (g (k'.thread uid)).core = (g (f (k.thread uid))).core := by
    rw [hg, hg, Quiet.thread h₁, Kernel.thread_setThread, if_pos rfl]
  have hset : Quiet ((k.setThread uid (f (k.thread uid))).setThread uid (g (f (k.thread uid))))
      (k'.setThread uid (g (k'.thread uid))) := Kernel.quiet_setThread_congr h₁ hcore
  have h := Quiet.trans hset h₂
  rwa [Kernel.setThread_setThread] at h

theorem quiet_left (h₁ : Quiet k k') (h₂ : Adjusts uid g k' k'')
    (hg : ∀ t, (g t).core = g t.core) : Adjusts uid g k k'' := by
  have hcore : (g (k'.thread uid)).core = (g (k.thread uid)).core := by
    rw [hg, hg, h₁.thread]
  exact Quiet.trans (Kernel.quiet_setThread_congr h₁ hcore) h₂

theorem quiet_right (h₁ : Adjusts uid f k k') (h₂ : Quiet k' k'') : Adjusts uid f k k'' :=
  Quiet.trans h₁ h₂

theorem of_modify (h : modifyThread uid f k = .ok () k') : Adjusts uid f k k' := by
  rw [modifyThread_eq_ok] at h
  exact h ▸ Quiet.refl _

/-- A change that leaves the queue record alone is an update of the view. -/
theorem becomes {g : View → View} (h : Adjusts uid f k k')
    (hinfo : ∀ t, (f t).msgInfo = t.msgInfo) (htid : ∀ t, (f t).tid = t.tid)
    (hver : ∀ t, (f t).version = t.version) (hview : ∀ w, k.view uid = some w →
      { w with
        state := (f (k.thread uid)).state
        waitFor := (f (k.thread uid)).syscallInfo.waitFor
        payloadAddr := (f (k.thread uid)).syscallInfo.payloadAddr
        payloadSize := (f (k.thread uid)).syscallInfo.payloadSize } = g w) :
    Becomes k k' (k.mail.modify uid g) := by
  have hset := Kernel.setThread_becomes (hinfo (k.thread uid)) (htid (k.thread uid)) (hver _)
  rw [Mail.modify_congr hview] at hset
  have hrest := (Quiet.spares h).becomes
  rw [hset.mail] at hrest
  exact hset.trans hrest

theorem steady (h : Adjusts uid f k k') (hstate : (f (k.thread uid)).state ≠ .waiting)
    (htid : ∀ t, (f t).tid = t.tid) (hver : ∀ t, (f t).version = t.version) : Steady k k' := by
  have hq : Alike (k.setThread uid (f (k.thread uid))) k' := Quiet.spares h
  exact (Kernel.setThread_steady hstate (htid _) (hver _)).trans hq.gone hq.becomes.closed hq.steady

end Adjusts

theorem schedulerAdd_eq_ok (h : schedulerAdd uid k = .ok () k') :
    k.live uid = true ∧ (k.thread uid).state ≠ .active ∧
      Adjusts uid (fun t => { t with state := .active }) k k' := by
  simp only [schedulerAdd, get_bind_apply, bind_eq_ok, dassertSome_threadGet_eq_ok, dassert_eq_ok]
    at h
  obtain ⟨_, _, ⟨hlive, rfl, rfl⟩, _, _, ⟨hstate, rfl⟩, _, _, hmod, hring⟩ := h
  exact ⟨hlive, hstate,
    ((Adjusts.of_modify hmod).quiet_right ((ringInsert_does uid).quiet.ok hring)).congr
    fun _ => rfl⟩

theorem schedulerRemove_eq_ok (h : schedulerRemove uid k = .ok () k') :
    k.live uid = true ∧ (k.thread uid).state = .active ∧
      Adjusts uid (fun t => { t with state := .old }) k k' ∧ Fixed k k' := by
  simp only [schedulerRemove, get_bind_apply, bind_eq_ok, dassertSome_threadGet_eq_ok,
    dassert_eq_ok] at h
  obtain ⟨_, _, ⟨hlive, rfl, rfl⟩, _, _, ⟨hstate, rfl⟩, _, _, ⟨-, rfl⟩, _, k₁, hring, hmod⟩ := h
  refine ⟨hlive, hstate, ?_, IsTrans.trans _ _ _ ((ringRemove_fixed _ _).ok hring)
    ((modifyThread_fixed _ _).ok hmod)⟩
  exact .quiet_left ((ringRemove_does _ _).quiet.ok hring) (.of_modify hmod) fun _ => rfl

theorem schedulerLock_eq_ok (h : schedulerLock k = .ok () k') :
    k'.locked = true ∧ k'.vm = k.vm := by
  simp only [schedulerLock, modify_bind_apply, get_bind_apply, bind_eq_ok, derefThread_eq_ok,
    taskPreserve, modifyThread_eq_ok] at h
  obtain ⟨_, _, ⟨-, rfl, rfl⟩, rfl⟩ := h
  exact ⟨rfl, rfl⟩

theorem blockCaller_eq_ok {addr size : Word} (h : blockCaller uid addr size k = .ok () k') :
    k.live uid = true ∧ (k.thread uid).state = .active ∧
      Becomes k k' (k.mail.modify uid (View.block addr size)) ∧ Steady k k' ∧
      k'.locked = true ∧ k'.vm = k.vm := by
  simp only [blockCaller, bind_eq_ok] at h
  obtain ⟨_, k₁, hlock, _, k₂, hremove, hmod⟩ := h
  have hquiet := schedulerLock_does.quiet.ok hlock
  obtain ⟨hlocked, hvm⟩ := schedulerLock_eq_ok hlock
  obtain ⟨hlive, hstate, hadj, hfixed⟩ := schedulerRemove_eq_ok hremove
  have hfixed' := (modifyThread_fixed _ _).ok hmod
  rw [hquiet.live] at hlive
  have halike : Alike k k₁ := hquiet.spares
  rw [halike.state rfl hlive] at hstate
  have hall := (Adjusts.quiet_left hquiet hadj fun _ => rfl).trans (Adjusts.of_modify hmod)
    fun _ => rfl
  refine ⟨hlive, hstate, hall.becomes (fun _ => rfl) (fun _ => rfl) (fun _ => rfl) ?_,
    hall.steady ThreadState.noConfusion (fun _ => rfl) (fun _ => rfl), ?_, ?_⟩
  · intro w hw
    rw [Kernel.view_of_live hlive, Option.some.injEq] at hw
    subst hw
    rfl
  · rw [hfixed'.locked, hfixed.locked, hlocked]
  · rw [hfixed'.vm, hfixed.vm, hvm]

theorem sleepCaller_eq_ok {port : IpcPort} (h : sleepCaller uid port k = .ok () k') :
    k.live uid = true ∧ (k.thread uid).state = .active ∧
      Becomes k k' (k.mail.modify uid (View.sleep port)) := by
  simp only [sleepCaller, bind_eq_ok] at h
  obtain ⟨_, k₁, hret, _, k₂, hlock, _, k₃, hremove, _, k₄, hmod, hunlock⟩ := h
  have hquiet :=
    ((syscallReturnSet_does _).still.ok hret).toQuiet.trans (schedulerLock_does.quiet.ok hlock)
  obtain ⟨hlive, hstate, hadj, -⟩ := schedulerRemove_eq_ok hremove
  rw [hquiet.live] at hlive
  have halike : Alike k k₂ := hquiet.spares
  rw [halike.state rfl hlive] at hstate
  have hall := ((Adjusts.quiet_left hquiet hadj fun _ => rfl).trans (Adjusts.of_modify hmod)
    fun _ => rfl).quiet_right (schedulerUnlock_does.quiet.ok hunlock)
  refine ⟨hlive, hstate, hall.becomes (fun _ => rfl) (fun _ => rfl) (fun _ => rfl) ?_⟩
  intro w hw
  rw [Kernel.view_of_live hlive, Option.some.injEq] at hw
  subst hw
  rfl

/-- `scheduler_add` on a thread that is not running wakes it. -/
theorem schedulerAdd_becomes (h : schedulerAdd uid k = .ok () k') :
    k.live uid = true ∧ (k.thread uid).state ≠ .active ∧
      (k'.live uid = true ∧ (k'.thread uid).state = .active) ∧
      Becomes k k' (k.mail.modify uid View.wake) ∧ Steady k k' := by
  obtain ⟨hlive, hstate, hadj⟩ := schedulerAdd_eq_ok h
  refine ⟨hlive, hstate, ⟨?_, ?_⟩, hadj.becomes (fun _ => rfl) (fun _ => rfl) (fun _ => rfl) ?_,
    hadj.steady nofun (fun _ => rfl) fun _ => rfl⟩
  · rw [Quiet.live hadj, Kernel.live_setThread, hlive]
  · have halike : Alike (k.setThread uid { k.thread uid with state := .active }) k' :=
      Quiet.spares hadj
    rw [halike.state rfl (by rw [Kernel.live_setThread, hlive]),
      Kernel.thread_setThread, if_pos rfl]
  · intro w hw
    rw [Kernel.view_of_live hlive, Option.some.injEq] at hw
    subst hw
    rfl

/-! ## Changing the queue of one thread -/

namespace Kernel

variable {b : Block}

variable (hsame : Block.SameExceptQueues (k.blocks uid.pid) b)
include hsame

theorem live_setBlock : (k.setBlock uid.pid b).live v = k.live v := hsame.live_setBlock v

theorem state_setBlock : ((k.setBlock uid.pid b).thread v).state = (k.thread v).state := by
  obtain ⟨q, hq⟩ := hsame.thread_setBlock v
  rw [hq]

theorem portOfUid_setBlock : (k.setBlock uid.pid b).portOfUid v = k.portOfUid v := by
  obtain ⟨q, hq⟩ := hsame.thread_setBlock v
  obtain ⟨m, hm⟩ := hsame.process_setBlock v.pid
  rw [portOfUid, hq, hm]
  rfl

theorem syscallInfo_setBlock :
    ((k.setBlock uid.pid b).thread v).syscallInfo = (k.thread v).syscallInfo := by
  obtain ⟨q, hq⟩ := hsame.thread_setBlock v
  rw [hq]

theorem named_setBlock (h : k.Named) : (k.setBlock uid.pid b).Named := by
  intro pid hpid
  obtain ⟨m, hm⟩ := hsame.process_setBlock pid
  rw [hm]
  exact h pid hpid

end Kernel

theorem setBlock_steady {b : Block} (hsame : Block.SameExceptQueues (k.blocks uid.pid) b) :
    Steady k (k.setBlock uid.pid b) where
  waiting u _ _ hwait := by
    rw [Kernel.state_setBlock hsame] at hwait
    exact ⟨hwait, by rw [Kernel.syscallInfo_setBlock hsame]⟩
  port u _ := Kernel.portOfUid_setBlock hsame
  services := rfl

/-- An operation on the queue of one thread, seen from outside. -/
theorem queueStep_becomes {b : Block} {l : List Nat} {q : List Envelope} (hk : k.Linked nobody)
    (h : Block.QueueStep (k.sound nobody uid.pid) uid.tid (k.blocks uid.pid) b l q) :
    Becomes k (k.setBlock uid.pid b) (k.mail.modify uid fun w => { w with queue := q }) ∧
      Steady k (k.setBlock uid.pid b) := by
  have hsound : ∀ pid, (k.setBlock uid.pid b).sound nobody pid = k.sound nobody pid := by
    intro pid
    funext t
    rw [Kernel.sound, Kernel.sound, Kernel.live_setBlock h.same]
  refine ⟨⟨Mail.ext (funext fun v => ?_) rfl, fun _ pid => ?_, Kernel.named_setBlock h.same,
    fun u hu => Kernel.live_setBlock h.same ▸ hu, fun u _ hc => ?_⟩, setBlock_steady h.same⟩
  · rw [Mail.view_modify]
    show (k.setBlock uid.pid b).view v = if v = uid then (k.view v).map _ else k.view v
    -- Only the mailbox of this thread has another queue.
    have hqueue : k.live v = true → ((k.setBlock uid.pid b).blocks v.pid).queue v.tid =
        if v = uid then q else (k.blocks v.pid).queue v.tid := by
      intro hv
      rw [Kernel.blocks_setBlock]
      by_cases hvu : v = uid
      · rw [if_pos hvu, hvu, if_pos rfl, h.self]
      · rw [if_neg hvu]
        split
        · next hpid =>
          rw [hpid]
          refine h.other v.tid ⟨?_, rfl⟩ fun htid => hvu (ThreadUid.ext hpid htid)
          rw [← hpid]
          exact hv
        · rfl
    unfold Kernel.view
    rw [Kernel.live_setBlock h.same, Kernel.portOfUid_setBlock h.same,
      Kernel.state_setBlock h.same, Kernel.syscallInfo_setBlock h.same]
    cases hv : k.live v with
    | false =>
      by_cases hvu : v = uid <;> simp [hvu]
    | true =>
      rw [hqueue hv]
      by_cases hvu : v = uid <;> simp [hvu]
  · rw [hsound, Kernel.blocks_setBlock]
    split
    · next hpid => exact hpid ▸ h.linked
    · exact hk pid
  · rw [Kernel.Closed, Kernel.blocks_setBlock]
    split
    · next hpid => exact h.closed u.tid (hpid ▸ hc)
    · exact hc

theorem onBlock_eq_ok {α : Type} {pid : Pid} {x : BlockM α} {a : α} :
    onBlock pid x k = .ok a k' ↔ ∃ b, x (k.blocks pid) = .ok a b ∧ k' = k.setBlock pid b :=
  zoom_eq_ok

/-! ## Delivering a message -/

/-- The same thread is running. -/
structure SameTask (k k' : Kernel) : Prop where
  active : k'.activeThread = k.activeThread
  locked : k'.locked = k.locked

instance : Std.Refl SameTask where
  refl _ := ⟨rfl, rfl⟩

instance : IsTrans Kernel SameTask where
  trans _ _ _ h₁ h₂ := ⟨h₂.active.trans h₁.active, h₂.locked.trans h₁.locked⟩

theorem sameTask_of_still {α : Type} {x : KernelM α} (h : Ensures Still x) :
    Ensures SameTask x := h.mono fun _ _ hs => ⟨hs.active, hs.locked⟩

theorem onBlock_sameTask {α : Type} (pid : Pid) (x : BlockM α) :
    Ensures SameTask (onBlock pid x) := ensures_zoom fun _ _ => ⟨rfl, rfl⟩

theorem setBlock_reserve_alike (pid : Pid) (index : Nat) :
    Alike k (k.setBlock pid ((k.blocks pid).reserve index)) := by
  have hblocks : ∀ p, (k.setBlock pid ((k.blocks pid).reserve index)).blocks p = k.blocks p ∨
      (k.setBlock pid ((k.blocks pid).reserve index)).blocks p = (k.blocks p).reserve index := by
    intro p
    rw [Kernel.blocks_setBlock]
    split
    · next hp => exact Or.inr (by rw [hp])
    · exact Or.inl rfl
  have hlive : ∀ u, (k.setBlock pid ((k.blocks pid).reserve index)).live u = k.live u := by
    intro u
    rw [Kernel.live, Kernel.live]
    rcases hblocks u.pid with h | h <;> rw [h] <;> rfl
  refine ⟨fun u _ => hlive u, fun u hu => hlive u ▸ hu, fun u _ _ => ?_, fun u _ _ => ?_,
    fun u _ _ i hi => ?_, fun u _ _ => ?_, rfl, fun hk p hp => ?_, rfl⟩
  · rw [Kernel.thread, Kernel.thread]
    rcases hblocks u.pid with h | h <;> rw [h]
    rfl
  · rw [Kernel.portOfUid, Kernel.portOfUid, Kernel.thread, Kernel.thread]
    rcases hblocks u.pid with h | h <;> rw [h]
    rfl
  · rcases hblocks u.pid with h | h <;> rw [h]
    · exact hi
    · rw [Block.used_reserve, hi, Bool.or_true]
  · rcases hblocks u.pid with h | h <;> rw [h]
    rfl
  · rcases hblocks p with h | h <;> rw [h] <;> exact hk p hp

section Deliver

variable {sender : IpcPort} {info : KernelM Msg} {head : Bool} {msg : Msg}

/-- Queueing an envelope, in front if `head`. -/
def View.push (head : Bool) (e : Envelope) (w : View) : View :=
  { w with queue := if head then e :: w.queue else w.queue ++ [e] }

/-- `message_add` queues the message it reads, as long as it does not put it in front of an
untouched queue. -/
theorem messageAdd_eq_ok (hk : k.Linked nobody) (hlive : k.live uid = true)
    (hinfo : Ensures Still info) (hclosed : head = true → k.Closed uid)
    (h : messageAdd uid sender info head k = .ok msg k') :
    (∃ k₁ k₂, k₁.vm = k.vm ∧ info k₁ = .ok msg k₂) ∧
      Becomes k k' (k.mail.modify uid (View.push head (Block.envelopeOf sender msg))) ∧
      Steady k k' := by
  simp only [messageAdd, get_bind_apply, bind_eq_ok, dassertSome, orThrow_eq_ok, onBlock_eq_ok,
    failIf_eq_ok, pure_eq_ok] at h
  obtain ⟨_, _, ⟨-, rfl⟩, index, k₁, ⟨b₁, htake, rfl⟩, _, _, ⟨-, rfl⟩, msg, k₂, hread, _, k₃,
    ⟨b₃, hfill, rfl⟩, rfl, rfl⟩ := h
  obtain ⟨-, -, hindex, rfl⟩ := Block.takeSlot_eq_ok.mp htake
  have hfree := Block.takeSlot_free htake
  have hquiet := (hinfo.ok hread).toQuiet
  have halike : Alike k k₂ := (setBlock_reserve_alike uid.pid index).trans hquiet.spares
  have hk₂ := halike.linked hk
  have hlive₂ : k₂.live uid = true := by rw [halike.live uid rfl, hlive]
  have hused : (k₂.blocks uid.pid).used index = true := by
    have hspares : Alike (k.setBlock uid.pid ((k.blocks uid.pid).reserve index)) k₂ := hquiet.spares
    refine hspares.used uid rfl ?_ index ?_
    · rw [(setBlock_reserve_alike uid.pid index).live uid rfl, hlive]
    · rw [Kernel.blocks_setBlock, if_pos rfl]
      exact Block.used_reserve_self
  -- The slot was free, so it is on no chain of a live thread.
  have hfresh : ∀ t, k₂.sound nobody uid.pid t → index ∉ (k₂.blocks uid.pid).slots t := by
    intro t ht
    have hold : k.live { pid := uid.pid, tid := t } = true := by
      rw [← halike.live _ rfl]
      exact ht.1
    have hslots := halike.slots rfl hold
    rw [hslots]
    exact Block.not_mem_slots_of_free (hk uid.pid) hfree ⟨hold, rfl⟩
  obtain ⟨b', hfill', hstep, -, -⟩ := @Block.fillSlot_step (k₂.blocks uid.pid)
    (k₂.sound nobody uid.pid) uid.tid index sender msg head (hk₂ uid.pid) ⟨hlive₂, rfl⟩
    (by simp only [Kernel.live, Bool.and_eq_true] at hlive₂; exact hlive₂.2)
    (fun hh => (halike.closed_iff rfl hlive).mpr (hclosed hh)) hindex hused hfresh
  rw [hfill] at hfill'
  cases hfill'
  obtain ⟨hbecomes, hwait⟩ := queueStep_becomes hk₂ hstep
  refine ⟨⟨_, k₂, by rfl, hread⟩, halike.becomes.trans ?_,
    halike.steady.trans hbecomes.live hbecomes.closed hwait⟩
  rw [halike.mail, Mail.modify_congr (g := View.push head (Block.envelopeOf sender msg))] at hbecomes
  · exact hbecomes
  · intro w hw
    have hw' : k₂.view uid = some w := (halike.view rfl hlive).trans hw
    rw [Kernel.view_of_live hlive₂, Option.some.injEq] at hw'
    subst hw'
    rfl

theorem messageAdd_fault (hinfo : Ensures Still info)
    (h : messageAdd uid sender info head k = .error .pageFault k') :
    Alike k k' ∧ SameTask k k' := by
  have htask : Ensures SameTask (messageAdd uid sender info head) :=
    .bind .get fun _ => .bind (sameTask_of_still (dassertSome_does _).still) fun _ =>
      .bind (onBlock_sameTask _ _) fun _ => .bind .get fun _ => .bind (.failIf _ _) fun _ =>
        .bind (sameTask_of_still hinfo) fun _ => .bind (onBlock_sameTask _ _) fun _ => .pure _
  refine ⟨?_, htask.error h⟩
  simp only [messageAdd, get_bind_apply] at h
  rcases bind_eq_error.mp h with h | ⟨_, _, hproc, h⟩
  · exact absurd h ((dassertSome_does _).noFault _ _)
  obtain ⟨-, rfl⟩ := orThrow_eq_ok.mp hproc
  rcases bind_eq_error.mp h with h | ⟨index, k₁, htake, h⟩
  · exact absurd h ((onBlock_does Block.takeSlot_does _).noFault _ _)
  obtain ⟨b₁, hslot, rfl⟩ := onBlock_eq_ok.mp htake
  obtain ⟨-, -, -, rfl⟩ := Block.takeSlot_eq_ok.mp hslot
  have halike := setBlock_reserve_alike (k := k) uid.pid index
  rw [get_bind_apply] at h
  rcases bind_eq_error.mp h with h | ⟨_, _, hmapped, h⟩
  · exact halike.trans ((Ensures.failIf (R := Alike) _ _).error h)
  obtain ⟨-, rfl⟩ := failIf_eq_ok.mp hmapped
  rcases bind_eq_error.mp h with h | ⟨msg, k₂, hread, h⟩
  · exact halike.trans (hinfo.error h).toQuiet.spares
  rcases bind_eq_error.mp h with h | ⟨_, _, _, h⟩
  · exact absurd h ((onBlock_does (Block.fillSlot_does _ _ _ _ _) _).noFault _ _)
  · cases h

theorem record_eq_ok {event : IpcEvent} (h : record event k = .ok () k') :
    Becomes k k' (k.mail.log event) ∧ Steady k k' := by
  rw [record, modify_eq_ok] at h
  subst h
  exact ⟨⟨rfl, id, id, fun _ hu => hu, fun _ _ hc => hc⟩, fun _ _ _ hw => ⟨hw, rfl⟩,
    fun _ _ => rfl, rfl⟩

/-- Delivery queues the message and wakes a thread that waits for it. Nothing is said when
that thread has an untouched queue. -/
theorem deliver_eq_ok {event : Msg → IpcEvent} (hk : k.Linked nobody) (hlive : k.live uid = true)
    (hinfo : Ensures Still info) (h : deliver uid sender info event k = .ok () k') :
    FirstWake (fun v port => v = uid ∧ port = sender) k ∨ ∃ msg,
      (∃ k₁ k₂, k₁.vm = k.vm ∧ info k₁ = .ok msg k₂) ∧
      Becomes k k' ((k.mail.modify uid (View.accept (Block.envelopeOf sender msg))).log
        (event msg)) ∧
      Steady k k' := by
  simp only [deliver, get_bind_apply, bind_eq_ok] at h
  obtain ⟨msg, k₁, hadd, _, k₂, hrecord, hwake⟩ := h
  obtain ⟨hlog, hlogWait⟩ := record_eq_ok hrecord
  rw [runIf_eq_ok] at hwake
  by_cases hsafe : (k.thread uid).wokenBy sender = true → k.Closed uid
  · refine Or.inr ⟨msg, ?_⟩
    obtain ⟨hread, hpush, hpushWait⟩ := messageAdd_eq_ok hk hlive hinfo hsafe hadd
    have hview : ∀ w, k.mail.view uid = some w → w.wokenBy (Block.envelopeOf sender msg).sender =
        (k.thread uid).wokenBy sender := by
      intro w hw
      rw [show k.mail.view uid = k.view uid from rfl, Kernel.view_of_live hlive,
        Option.some.injEq] at hw
      subst hw
      rfl
    have hqueued := hpush.trans hlog
    have hqueuedWait := hpushWait.trans hlog.live hlog.closed hlogWait
    rw [hpush.mail] at hqueued
    refine ⟨hread, ?_⟩
    rcases hwake with ⟨hwoken, hwake⟩ | ⟨hwoken, rfl⟩
    · obtain ⟨-, -, -, hwakes, hwakesWait⟩ := schedulerAdd_becomes hwake
      refine ⟨?_, hqueuedWait.trans hwakes.live hwakes.closed hwakesWait⟩
      rw [hqueued.mail, Mail.modify_log, Mail.modify_modify, Mail.modify_congr
        (g := View.accept (Block.envelopeOf sender msg))] at hwakes
      · exact hqueued.trans hwakes
      · intro w hw
        simp only [View.accept, hview w hw, hwoken, if_true, View.push, View.wake]
    · refine ⟨?_, hqueuedWait⟩
      rw [Mail.modify_congr (g := View.accept (Block.envelopeOf sender msg))] at hqueued
      · exact hqueued
      · intro w hw
        simp only [View.accept, hview w hw, hwoken, View.push]
        rfl
  · -- A message in front of an untouched queue.
    push Not at hsafe
    obtain ⟨hwoken, hfresh⟩ := hsafe
    exact Or.inl ⟨uid, sender, ⟨rfl, rfl⟩, hlive, hwoken, hfresh⟩

theorem deliver_fault {event : Msg → IpcEvent} (hinfo : Ensures Still info)
    (h : deliver uid sender info event k = .error .pageFault k') : Alike k k' ∧ SameTask k k' := by
  simp only [deliver, get_bind_apply] at h
  rcases bind_eq_error.mp h with h | ⟨msg, k₁, hadd, h⟩
  · exact messageAdd_fault hinfo h
  · refine absurd h (Never.bind (.modify _) (fun _ => ?_) _ _)
    exact .runIf (schedulerAdd_does uid).noFault

end Deliver

/-! ## Removing and searching -/

/-- `k'` is the state in which a page fault has stopped the running thread `c`: its mail is
`m`, except that `c` may be in the middle of an operation on its queue. -/
structure Stuck (c : ThreadUid) (k k' : Kernel) (m : Mail) : Prop where
  linked : k'.Linked (only c)
  named : k.Named → k'.Named
  history : k'.history = m.history
  view : ∀ u, u ≠ c → k'.view u = m.view u
  live : ∀ u, k'.live u = true → k.live u = true
  closed : ∀ u, k'.live u = true → k.Closed u → k'.Closed u
  steady : Steady k k'

theorem Kernel.Linked.only (h : k.Linked nobody) (c : ThreadUid) : k.Linked (only c) :=
  fun pid => (h pid).mono fun _ ht => ⟨ht.1, rfl⟩

theorem Becomes.stuck (h : Becomes k k' m) (hwait : Steady k k') (hk : k.Linked nobody)
    (c : ThreadUid) : Stuck c k k' m where
  linked := (h.linked hk).only c
  named := h.named
  history := congrArg Mail.history h.mail
  view u _ := congrArg (fun m : Mail => m.view u) h.mail
  live := h.live
  closed := h.closed
  steady := hwait

/-- A sound step before the operation that is stopped; the mail of the stopped thread itself
does not matter. -/
theorem Stuck.of_becomes {c : ThreadUid} (h₁ : Becomes k k' m) (hw : Steady k k')
    (h₂ : Stuck c k' k'' m) (hhistory : m'.history = m.history)
    (hview : ∀ u, u ≠ c → m'.view u = m.view u) : Stuck c k k'' m' where
  linked := h₂.linked
  named hn := h₂.named (h₁.named hn)
  history := h₂.history.trans hhistory.symm
  view u hu := (h₂.view u hu).trans (hview u hu).symm
  live u hu := h₁.live u (h₂.live u hu)
  closed u hu hc := h₂.closed u hu (h₁.closed u (h₂.live u hu) hc)
  steady := hw.trans h₂.live h₂.closed h₂.steady

/-- Killing the thread that was stopped leaves a sound state. -/
theorem Stuck.kill {c : ThreadUid} (h : Stuck c k k' m) (hkill : Kills dead k' k'')
    (hc : dead c = true) : Becomes k k'' (m.remove dead) ∧ Steady k k'' := by
  have hb := hkill.becomes
  refine ⟨⟨?_, fun _ => hkill.linked h.linked ?_, fun hn => hkill.named (h.named hn),
    fun u hu => h.live u (hb.live u hu),
    fun u hu hcl => hb.closed u hu (h.closed u (hb.live u hu) hcl)⟩,
    h.steady.trans hb.live hb.closed hkill.steady⟩
  · rw [hb.mail]
    refine Mail.ext (funext fun u => ?_) h.history
    rw [Mail.view_remove, Mail.view_remove]
    cases hdead : dead u with
    | true => rfl
    | false =>
      have hu : u ≠ c := by
        rintro rfl
        rw [hc] at hdead
        cases hdead
      exact h.view u hu
  · intro u hspared _
    rw [only, decide_eq_false_iff_not]
    rintro rfl
    rw [hc] at hspared
    cases hspared

theorem Kernel.live_block (h : k.live uid = true) : (k.blocks uid.pid).live uid.tid = true := by
  simp only [Kernel.live, Bool.and_eq_true] at h
  exact h.2

/-- Freeing the slot of a message in the middle of `message_remove`. -/
theorem setBlock_release_stuck {index : Nat} {l : List Nat} (hk : k.Linked nobody)
    (hlive : k.live uid = true) (hslots : (k.blocks uid.pid).slots uid.tid = index :: l) :
    Stuck uid k (k.setBlock uid.pid ((k.blocks uid.pid).release index)) k.mail := by
  have hsame : Block.SameExceptQueues (k.blocks uid.pid) ((k.blocks uid.pid).release index) :=
    (Block.SameExceptQueues.refl _).setProcessMsgInfo _
  have hqueue : ∀ v : ThreadUid, ((k.setBlock uid.pid ((k.blocks uid.pid).release index)).blocks
      v.pid).queue v.tid = (k.blocks v.pid).queue v.tid := by
    intro v
    rw [Kernel.blocks_setBlock]
    split
    · next hv => rw [hv]; rfl
    · rfl
  refine ⟨fun pid => ?_, Kernel.named_setBlock hsame, rfl, fun u _ => ?_,
    fun u hu => Kernel.live_setBlock hsame ▸ hu, fun u _ hc => ?_, setBlock_steady hsame⟩
  · rw [Kernel.blocks_setBlock]
    have hold : (k.blocks pid).Linked
        ((k.setBlock uid.pid ((k.blocks uid.pid).release index)).sound (only uid) pid) := by
      refine (hk pid).mono fun t ht => ⟨?_, rfl⟩
      rw [← Kernel.live_setBlock hsame]
      exact ht.1
    split
    · next hpid =>
      subst hpid
      refine hold.release fun t ht hmem => ?_
      have hne : t ≠ uid.tid := by
        rintro rfl
        have := ht.2
        rw [only, decide_eq_false_iff_not] at this
        exact this rfl
      refine (hk uid.pid).disjoint uid.tid t ⟨hlive, rfl⟩ ⟨?_, rfl⟩ hne.symm ?_ hmem
      · rw [← Kernel.live_setBlock hsame]
        exact ht.1
      · rw [hslots]
        exact List.mem_cons_self
    · exact hold
  · show Kernel.view _ u = k.view u
    unfold Kernel.view
    rw [Kernel.live_setBlock hsame, Kernel.portOfUid_setBlock hsame, Kernel.state_setBlock hsame,
      Kernel.syscallInfo_setBlock hsame, hqueue]
  · rw [Kernel.Closed, Kernel.blocks_setBlock]
    split
    · next hpid =>
      rw [Kernel.Closed, hpid] at hc
      exact hc
    · exact hc

/-- A quiet step while the running thread is stopped. -/
theorem Stuck.quiet {c : ThreadUid} (h : Stuck c k k' m) (hq : Quiet k' k'') : Stuck c k k'' m := by
  have hs : Alike k' k'' := hq.spares
  refine ⟨hs.linked h.linked, fun hn => hs.named (h.named hn), hs.history.trans h.history,
    fun u hu => ?_,
    fun u hu => h.live u (hs.gone u hu), fun u hu hc => ?_, ?_⟩
  · rw [← h.view u hu]
    exact congrArg (fun m : Mail => m.view u) hs.mail
  · exact (hs.closed_iff rfl (hs.gone u hu)).mpr (h.closed u (hs.gone u hu) hc)
  · exact h.steady.trans hs.gone hs.becomes.closed hs.steady

/-- Only memory and the log of accesses differ. -/
structure OnlyMemory (k k' : Kernel) : Prop where
  eq : k' = { k with vm := k'.vm, touched := k'.touched }

instance : Std.Refl OnlyMemory where
  refl _ := ⟨rfl⟩

instance : IsTrans Kernel OnlyMemory where
  trans _ _ _ h₁ h₂ := ⟨by
    have h := h₂.eq
    rw [h₁.eq] at h
    exact h⟩

theorem OnlyMemory.blocks (h : OnlyMemory k k') : k'.blocks = k.blocks := by rw [h.eq]

theorem Does.onlyMemory {α : Type} {S : List Effect} {x : KernelM α}
    [hS : Within S [.log, .ram, .paging, .cr3, .fault]] (h : Does S x) : Ensures OnlyMemory x := by
  refine h.ensures fun e he k k' hc => ?_
  have he := hS.mem e he
  cases hc with
  | log | ram | paging | cr3 => exact ⟨rfl⟩
  | _ => exact absurd he (by decide)

theorem OnlyMemory.still (h : OnlyMemory k k') : Still k k' := by
  rw [h.eq]
  exact ⟨⟨fun _ => rfl, fun _ => rfl, fun _ => rfl, rfl, rfl, rfl⟩, rfl, rfl⟩

section Remove

variable {dest : Word} {e : Envelope}

theorem freeHead_eq_ok {source : Message} {b : Block} (hk : k.Linked nobody)
    (hlive : k.live uid = true) (h : Block.freeHead uid.tid (k.blocks uid.pid) = .ok source b) :
    ∃ index l, (k.blocks uid.pid).slots uid.tid = index :: l ∧
      source = (k.blocks uid.pid).messages index ∧ b = (k.blocks uid.pid).release index := by
  have hq := (hk uid.pid).queued uid.tid ⟨hlive, rfl⟩
  have hblock := Kernel.live_block hlive
  cases hslots : (k.blocks uid.pid).slots uid.tid with
  | nil =>
    rw [hslots] at hq
    have hcount := hq.count_eq_zero
    simp only [Block.info] at hcount
    simp only [Block.freeHead, bind_apply, Block.assertLive_apply hblock, get_apply, failIf,
      if_pos hcount, throw_apply] at h
    cases h
  | cons index l =>
    rw [hslots] at hq
    rw [Block.freeHead_apply hq hblock] at h
    cases h
    exact ⟨index, l, rfl, rfl, rfl⟩

/-- `message_remove` takes the head of the queue and, unless `dest` is `NULL`, stores it there. -/
theorem messageRemove_eq_ok (hk : k.Linked nobody) (hlive : k.live uid = true)
    (h : messageRemove uid dest k = .ok e k') : (∃ q, (k.blocks uid.pid).queue uid.tid = e :: q) ∧
      Becomes k k' (k.mail.modify uid View.pop) ∧ Steady k k' ∧
      ∃ k₁ k₂, runIf (dest ≠ 0) (storeMsg dest e) k₁ = .ok () k₂ ∧ k'.vm = k₂.vm := by
  simp only [messageRemove, get_bind_apply, bind_eq_ok, dassertSome, orThrow_eq_ok, onBlock_eq_ok,
    pure_eq_ok] at h
  obtain ⟨_, _, ⟨-, rfl⟩, source, _, ⟨b₁, hfree, rfl⟩, _, k₂, hstore, _, _, ⟨b₃, hunlink, rfl⟩,
    rfl, rfl⟩ := h
  obtain ⟨index, l, hslots, rfl, rfl⟩ := freeHead_eq_ok hk hlive hfree
  have hmem := (Does.onlyMemory (.runIf (storeMsg_does dest _))).ok hstore
  have hblocks : k₂.blocks uid.pid = (k.blocks uid.pid).release index := by
    rw [hmem.eq]
    exact (Kernel.blocks_setBlock).trans (if_pos rfl)
  rw [hblocks, Block.unlinkHead_apply] at hunlink
  cases hunlink
  have hstep := Block.popHead_step (hk uid.pid)
    (show k.sound nobody uid.pid uid.tid from ⟨hlive, rfl⟩) hslots
  obtain ⟨hbecomes, hwait⟩ := queueStep_becomes hk hstep
  have hqueue : (k.blocks uid.pid).queue uid.tid =
      (k.blocks uid.pid).envelope index :: l.map (k.blocks uid.pid).envelope := by
    rw [Block.queue, hslots, List.map_cons]
  -- Storing the message between the two steps changes memory only.
  have hlast : Still (k.setBlock uid.pid (((k.blocks uid.pid).release index).popHead uid.tid
      ((k.blocks uid.pid).messages index)))
      (k₂.setBlock uid.pid (((k.blocks uid.pid).release index).popHead uid.tid
        ((k.blocks uid.pid).messages index))) := by
    refine OnlyMemory.still ⟨?_⟩
    rw [hmem.eq]
    simp only [Kernel.setBlock, Function.update_idem]
  have hrest : Alike _ _ := hlast.toQuiet.spares
  refine ⟨⟨_, hqueue⟩, ?_, hwait.trans hrest.gone hrest.becomes.closed hrest.steady,
    _, _, hstore, rfl⟩
  rw [Mail.modify_congr (g := View.pop)] at hbecomes
  · have := hbecomes.trans hrest.becomes
    rwa [hbecomes.mail] at this
  · intro w hw
    rw [show k.mail.view uid = k.view uid from rfl, Kernel.view_of_live hlive,
      Option.some.injEq] at hw
    subst hw
    simp only [View.pop, hqueue, List.tail_cons]

theorem messageRemove_fault (hk : k.Linked nobody) (hlive : k.live uid = true)
    (h : messageRemove uid dest k = .error .pageFault k') :
    Stuck uid k k' k.mail ∧ SameTask k k' := by
  simp only [messageRemove, get_bind_apply] at h
  rcases bind_eq_error.mp h with h | ⟨_, _, hproc, h⟩
  · exact absurd h ((dassertSome_does _).noFault _ _)
  obtain ⟨-, rfl⟩ := orThrow_eq_ok.mp hproc
  rcases bind_eq_error.mp h with h | ⟨source, k₁, hfree, h⟩
  · exact absurd h ((onBlock_does (Block.freeHead_does _) _).noFault _ _)
  obtain ⟨b₁, hhead, rfl⟩ := onBlock_eq_ok.mp hfree
  obtain ⟨index, l, hslots, rfl, rfl⟩ := freeHead_eq_ok hk hlive hhead
  rcases bind_eq_error.mp h with h | ⟨_, _, _, h⟩
  · have hstill := (Does.still (.runIf (storeMsg_does dest _))).error h
    exact ⟨(setBlock_release_stuck hk hlive hslots).quiet hstill.toQuiet, hstill.active,
      hstill.locked⟩
  rcases bind_eq_error.mp h with h | ⟨_, _, _, h⟩
  · exact absurd h ((onBlock_does (Block.unlinkHead_does _ _) _).noFault _ _)
  · cases h

theorem messagePeek_eq_ok {port : IpcPort} {hasPayload : Bool} (hk : k.Linked nobody)
    (hlive : k.live uid = true) (h : messagePeek uid k = .ok (port, hasPayload) k') :
    k = k' ∧ ∃ e q, (k.blocks uid.pid).queue uid.tid = e :: q ∧ port = e.sender ∧
      hasPayload = e.payload := by
  simp only [messagePeek, get_bind_apply, bind_eq_ok, dassertSome, orThrow_eq_ok,
    onBlock_eq_ok] at h
  obtain ⟨_, _, ⟨-, rfl⟩, b, hpeek, rfl⟩ := h
  have hq := (hk uid.pid).queued uid.tid ⟨hlive, rfl⟩
  have hblock := Kernel.live_block hlive
  cases hslots : (k.blocks uid.pid).slots uid.tid with
  | nil =>
    rw [hslots] at hq
    have hcount := hq.count_eq_zero
    simp only [Block.info] at hcount
    simp only [Block.messagePeek, bind_apply, Block.assertLive_apply hblock, get_apply, failIf,
      if_pos hcount, throw_apply] at hpeek
    cases hpeek
  | cons index l =>
    rw [hslots] at hq
    rw [Block.messagePeek_apply hq hblock] at hpeek
    cases hpeek
    refine ⟨?_, _, l.map (k.blocks uid.pid).envelope, ?_, rfl, rfl⟩
    · rw [Kernel.setBlock, Function.update_eq_self]
    · rw [Block.queue, hslots, List.map_cons]

theorem messageFind_eq_ok {port : IpcPort} {found : Bool} (hk : k.Linked nobody)
    (hlive : k.live uid = true) (h : messageFind uid port k = .ok found k') :
    found = ((k.blocks uid.pid).queue uid.tid).any (Block.matchesPort port) ∧
      Becomes k k' (k.mail.modify uid (View.find port)) ∧ Steady k k' ∧
      (found = false → k = k') := by
  simp only [messageFind, get_bind_apply, bind_eq_ok, dassertSome, orThrow_eq_ok,
    onBlock_eq_ok] at h
  obtain ⟨_, _, ⟨-, rfl⟩, b, hfind, rfl⟩ := h
  obtain ⟨b', l, hfind', hstep, -, -, hnone⟩ := Block.messageFind_step (hk uid.pid)
    (show k.sound nobody uid.pid uid.tid from ⟨hlive, rfl⟩) (Kernel.live_block hlive) port
  rw [hfind] at hfind'
  cases hfind'
  obtain ⟨hbecomes, hwait⟩ := queueStep_becomes hk hstep
  refine ⟨rfl, ?_, hwait, fun hfalse => ?_⟩
  · rw [Mail.modify_congr (g := View.find port)] at hbecomes
    · exact hbecomes
    · intro w hw
      rw [show k.mail.view uid = k.view uid from rfl, Kernel.view_of_live hlive,
        Option.some.injEq] at hw
      subst hw
      rfl
  · rw [hnone hfalse, Kernel.setBlock, Function.update_eq_self]

end Remove

end Horizon
