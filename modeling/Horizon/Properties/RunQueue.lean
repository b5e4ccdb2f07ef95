import Horizon.Lib.Ring
import Horizon.Lib.RoundRobin
import Horizon.System.Boot

/-!
# Horizon — the scheduler's ring is a list

`Kernel.Scheduled l` reads the ring of runnable threads as a list that starts at the running
thread. The scheduler's operations are list operations on it: `scheduler_add` appends,
`scheduler_remove` erases, `scheduler_purge` filters and `scheduler_next` rotates.

The links are written one field at a time, into control blocks that may coincide; what they add
up to is proved for any doubly linked ring in `Lib.Ring`.
-/

namespace Horizon

open StateError LinkedRing

variable {k k' : Kernel} {uid : ThreadUid} {l : List ThreadUid}

/-- The link to the thread that runs next. -/
def Kernel.next (k : Kernel) (uid : ThreadUid) : ThreadUid := (k.thread uid).schedInfo.next

def Kernel.prev (k : Kernel) (uid : ThreadUid) : ThreadUid := (k.thread uid).schedInfo.prev

/-- The ticks a thread has left. -/
def Kernel.slice (k : Kernel) (uid : ThreadUid) : Word := (k.thread uid).schedInfo.timeslice

/-- The ring of runnable threads, from the running one on, is `l`. -/
structure Kernel.Scheduled (k : Kernel) (l : List ThreadUid) : Prop where
  ring : Ring k.next k.prev l
  mem : ∀ uid, uid ∈ l ↔ k.live uid = true ∧ (k.thread uid).state = .active
  active : k.activeThread = l.head?.getD 0
  owner : ∀ uid, k.live uid = true → k.liveProcess (k.thread uid).owner = true

/-! ## Steps that do not concern the ring -/

/-- The ring is the same, and so is what it consists of. -/
structure Undisturbed (k k' : Kernel) : Prop where
  live : ∀ uid, k'.live uid = k.live uid
  liveProcess : ∀ pid, k'.liveProcess pid = k.liveProcess pid
  state : ∀ uid, (k'.thread uid).state = (k.thread uid).state
  sched : ∀ uid, (k'.thread uid).schedInfo = (k.thread uid).schedInfo
  owner : ∀ uid, (k'.thread uid).owner = (k.thread uid).owner
  active : k'.activeThread = k.activeThread

instance : Std.Refl Undisturbed where
  refl _ := ⟨fun _ => rfl, fun _ => rfl, fun _ => rfl, fun _ => rfl, fun _ => rfl, rfl⟩

instance : IsTrans Kernel Undisturbed where
  trans _ _ _ h₁ h₂ :=
    ⟨fun u => (h₂.live u).trans (h₁.live u), fun p => (h₂.liveProcess p).trans (h₁.liveProcess p),
      fun u => (h₂.state u).trans (h₁.state u), fun u => (h₂.sched u).trans (h₁.sched u),
      fun u => (h₂.owner u).trans (h₁.owner u), h₂.active.trans h₁.active⟩

theorem Undisturbed.slice (h : Undisturbed k k') : k'.slice = k.slice :=
  funext fun u => congrArg SchedInfo.timeslice (h.sched u)

theorem Undisturbed.scheduled (h : Undisturbed k k') (hk : k.Scheduled l) : k'.Scheduled l where
  ring := hk.ring.frame (fun u _ => congrArg SchedInfo.next (h.sched u))
    fun u _ => congrArg SchedInfo.prev (h.sched u)
  mem u := by rw [hk.mem, h.live, h.state]
  active := h.active.trans hk.active
  owner u hlive := by
    rw [h.owner, h.liveProcess]
    exact hk.owner u (h.live u ▸ hlive)

theorem taskPreserve_undisturbed (uid : ThreadUid) : Ensures Undisturbed (taskPreserve uid) := by
  refine .bind .get fun k => .modify fun k => ⟨fun _ => Kernel.live_setThread, fun _ => rfl,
    fun v => ?_, fun v => ?_, fun v => ?_, rfl⟩
  all_goals
    rw [Kernel.thread_setThread]
    split
    · next hv => rw [hv]
    · rfl

/-! ## Writing the links -/

namespace Kernel

variable {t : Thread} {f : SchedInfo → SchedInfo}

def setSched (k : Kernel) (uid : ThreadUid) (f : SchedInfo → SchedInfo) : Kernel :=
  k.setThread uid { k.thread uid with schedInfo := f (k.thread uid).schedInfo }

theorem next_setThread :
    (k.setThread uid t).next = Function.update k.next uid t.schedInfo.next := by
  funext v
  rw [next, thread_setThread]
  split
  · next hv => rw [hv, Function.update_self]
  · next hv => rw [Function.update_of_ne hv, next]

theorem prev_setThread :
    (k.setThread uid t).prev = Function.update k.prev uid t.schedInfo.prev := by
  funext v
  rw [prev, thread_setThread]
  split
  · next hv => rw [hv, Function.update_self]
  · next hv => rw [Function.update_of_ne hv, prev]

theorem slice_setThread :
    (k.setThread uid t).slice = Function.update k.slice uid t.schedInfo.timeslice := by
  funext v
  rw [slice, thread_setThread]
  split
  · next hv => rw [hv, Function.update_self]
  · next hv => rw [Function.update_of_ne hv, slice]

theorem slice_setSched (h : ∀ s, (f s).timeslice = s.timeslice) :
    (k.setSched uid f).slice = k.slice := by
  rw [setSched, slice_setThread, h]
  exact Function.update_eq_self _ _

theorem live_setSched : (k.setSched uid f).live = k.live := funext fun _ => live_setThread

theorem state_setSched {v : ThreadUid} :
    ((k.setSched uid f).thread v).state = (k.thread v).state := by
  rw [setSched, thread_setThread]
  split
  · next hv => rw [hv]
  · rfl

theorem owner_setSched {v : ThreadUid} :
    ((k.setSched uid f).thread v).owner = (k.thread v).owner := by
  rw [setSched, thread_setThread]
  split
  · next hv => rw [hv]
  · rfl

theorem next_setNext {n : ThreadUid} :
    (k.setSched uid fun s => { s with next := n }).next = Function.update k.next uid n :=
  next_setThread

theorem prev_setNext {n : ThreadUid} :
    (k.setSched uid fun s => { s with next := n }).prev = k.prev :=
  prev_setThread.trans (Function.update_eq_self _ _)

theorem next_setPrev {p : ThreadUid} :
    (k.setSched uid fun s => { s with prev := p }).next = k.next :=
  next_setThread.trans (Function.update_eq_self _ _)

theorem prev_setPrev {p : ThreadUid} :
    (k.setSched uid fun s => { s with prev := p }).prev = Function.update k.prev uid p :=
  prev_setThread

theorem slice_setNext {n : ThreadUid} :
    (k.setSched uid fun s => { s with next := n }).slice = k.slice := slice_setSched fun _ => rfl

theorem slice_setPrev {p : ThreadUid} :
    (k.setSched uid fun s => { s with prev := p }).slice = k.slice := slice_setSched fun _ => rfl

theorem slice_setLinks {n p : ThreadUid} :
    (k.setSched uid fun s => { s with next := n, prev := p }).slice = k.slice :=
  slice_setSched fun _ => rfl

def withActive (k : Kernel) (uid : ThreadUid) : Kernel := { k with activeThread := uid }

theorem next_withActive : (k.withActive uid).next = k.next := rfl

theorem prev_withActive : (k.withActive uid).prev = k.prev := rfl

theorem slice_withActive : (k.withActive uid).slice = k.slice := rfl

theorem live_withActive : (k.withActive uid).live = k.live := rfl

theorem thread_withActive : (k.withActive uid).thread = k.thread := rfl

theorem pid_ne_zero_of_live (h : k.live uid = true) : uid.pid ≠ 0 := by
  intro hpid
  have := liveProcess_of_live h
  rw [liveProcess, hpid] at this
  cases this

end Kernel

theorem modifySched_apply {f : SchedInfo → SchedInfo} :
    modifySched uid f k = .ok () (k.setSched uid f) := rfl

theorem derefThread_apply (h : k.live uid = true) :
    derefThread uid k = .ok (k.thread uid) k := derefThread_eq_ok.mpr ⟨h, rfl, rfl⟩

theorem dassertSome_threadGet_apply (h : k.live uid = true) :
    dassertSome (k.threadGet uid) k = .ok (k.thread uid) k :=
  dassertSome_threadGet_eq_ok.mpr ⟨h, rfl, rfl⟩

theorem dassert_apply {c : Prop} [Decidable c] (h : c) : dassert c k = .ok () k :=
  dassert_eq_ok.mpr ⟨h, rfl⟩

namespace Kernel.Scheduled

theorem activeThread_cons {a : ThreadUid} (h : k.Scheduled (a :: l)) : k.activeThread = a := h.active

theorem live_of_mem (h : k.Scheduled l) (hu : uid ∈ l) : k.live uid = true := ((h.mem uid).mp hu).1

theorem active_eq_zero (h : k.Scheduled l) : k.activeThread = 0 ↔ l = [] := by
  cases l with
  | nil => exact iff_of_true h.active rfl
  | cons a l =>
    refine iff_of_false (fun hzero => ?_) nofun
    have hpid := pid_ne_zero_of_live (h.live_of_mem List.mem_cons_self)
    rw [← h.activeThread_cons, hzero] at hpid
    exact hpid rfl

end Kernel.Scheduled

/-! ## The operations -/

/-- The thread becomes runnable, before it is linked. -/
def Kernel.activate (k : Kernel) (uid : ThreadUid) : Kernel :=
  k.setThread uid { k.thread uid with
    state := .active
    schedInfo := { (k.thread uid).schedInfo with timeslice := schedulerTimeslice } }

theorem Kernel.next_activate : (k.activate uid).next = k.next :=
  next_setThread.trans (Function.update_eq_self _ _)

theorem Kernel.prev_activate : (k.activate uid).prev = k.prev :=
  prev_setThread.trans (Function.update_eq_self _ _)

theorem Kernel.live_activate : (k.activate uid).live = k.live := funext fun _ => live_setThread

theorem Kernel.state_activate {v : ThreadUid} :
    ((k.activate uid).thread v).state = if v = uid then .active else (k.thread v).state := by
  rw [activate, thread_setThread]
  split <;> rfl

theorem Kernel.owner_activate {v : ThreadUid} :
    ((k.activate uid).thread v).owner = (k.thread v).owner := by
  rw [activate, thread_setThread]
  split
  · next hv => rw [hv]
  · rfl

theorem ringInsert_alone (h : k.activeThread.pid = 0) : ringInsert uid k = .ok ()
    ((k.setSched uid fun s => { s with next := uid, prev := uid }).withActive uid) := by
  rw [ringInsert, get_bind_apply, if_pos h]
  rfl

theorem ringInsert_behind {a : ThreadUid} (hactive : k.activeThread = a)
    (ha : k.live a = true) (hp : k.live (k.prev a) = true) : ringInsert uid k = .ok ()
      (((k.setSched uid fun s => { s with next := a, prev := k.prev a }).setSched a
        fun s => { s with prev := uid }).setSched (k.prev a) fun s => { s with next := uid }) := by
  rw [ringInsert, get_bind_apply, hactive, if_neg (Kernel.pid_ne_zero_of_live ha),
    bind_apply_of_ok (derefThread_apply ha)]
  exact bind_apply_of_ok (derefThread_apply hp)

theorem schedulerAdd_apply (hlive : k.live uid = true) (hstate : (k.thread uid).state ≠ .active) :
    schedulerAdd uid k = ringInsert uid (k.activate uid) := by
  rw [schedulerAdd, get_bind_apply, bind_apply_of_ok (dassertSome_threadGet_apply hlive),
    bind_apply_of_ok (dassert_apply hstate)]
  rfl

/-- `scheduler_add` puts the thread in front of the running one, at the end of its list. -/
theorem Kernel.Scheduled.add (hk : k.Scheduled l) (hlive : k.live uid = true)
    (hstate : (k.thread uid).state ≠ .active) :
    ∃ k', schedulerAdd uid k = .ok () k' ∧ k'.Scheduled (l ++ [uid]) ∧
      k'.slice = Function.update k.slice uid schedulerTimeslice ∧ k'.locked = k.locked := by
  have hnot : uid ∉ l := fun hmem => hstate ((hk.mem uid).mp hmem).2
  have hmem : ∀ v, v ∈ l ++ [uid] ↔
      k.live v = true ∧ ((k.activate uid).thread v).state = .active := by
    intro v
    rw [List.mem_append, List.mem_singleton, hk.mem, state_activate]
    by_cases hv : v = uid
    · subst hv
      simp [hlive]
    · simp [hv]
  rw [schedulerAdd_apply hlive hstate]
  -- With nobody in the ring the new thread runs and points at itself.
  cases l with
  | nil =>
    refine ⟨_, ringInsert_alone ?_, ⟨ring_singleton.mpr ⟨?_, ?_⟩, fun v => ?_, rfl,
      fun v hv => ?_⟩, ?_, rfl⟩
    · show k.activeThread.pid = 0
      rw [hk.active]
      rfl
    · rw [next_withActive, setSched, next_setThread, Function.update_self]
    · rw [prev_withActive, setSched, prev_setThread, Function.update_self]
    · rw [hmem, live_withActive, thread_withActive, live_setSched, live_activate, state_setSched]
    · rw [live_withActive, live_setSched, live_activate] at hv
      rw [thread_withActive, owner_setSched, owner_activate]
      exact hk.owner v hv
    · rw [slice_withActive, slice_setLinks]
      exact slice_setThread
  | cons a l =>
    have ha : (k.activate uid).live a = true := by
      rw [live_activate]
      exact hk.live_of_mem List.mem_cons_self
    have hp : (k.activate uid).live ((k.activate uid).prev a) = true := by
      rw [live_activate, prev_activate]
      exact hk.live_of_mem (hk.ring.prev_mem List.mem_cons_self)
    refine ⟨_, ringInsert_behind hk.activeThread_cons ha hp, ⟨?_, fun v => ?_,
      hk.activeThread_cons, fun v hv => ?_⟩, ?_, rfl⟩
    · rw [next_setNext, next_setPrev, prev_setNext, prev_setPrev, setSched, next_setThread,
        prev_setThread, next_activate, prev_activate]
      exact hk.ring.snoc hnot
    · rw [hmem, live_setSched, live_setSched, live_setSched, live_activate, state_setSched,
        state_setSched, state_setSched]
    · rw [live_setSched, live_setSched, live_setSched, live_activate] at hv
      rw [owner_setSched, owner_setSched, owner_setSched, owner_activate]
      exact hk.owner v hv
    · rw [slice_setNext, slice_setPrev, slice_setLinks]
      exact slice_setThread

/-! ## Removing -/

theorem ringRemove_alone {sched : SchedInfo} (h : sched.next = uid) :
    ringRemove uid sched k = .ok () (k.withActive 0) := by
  rw [ringRemove, if_pos h]
  rfl

theorem ringRemove_between {sched : SchedInfo} (h : sched.next ≠ uid)
    (hn : k.live sched.next = true) (hp : k.live sched.prev = true) :
    ringRemove uid sched k = .ok () (((k.withActive
      (if k.activeThread = uid then sched.next else k.activeThread)).setSched sched.next
        fun s => { s with prev := sched.prev }).setSched sched.prev
          fun s => { s with next := sched.next }) := by
  rw [ringRemove, if_neg h, get_bind_apply]
  by_cases hactive : k.activeThread = uid
  · rw [if_pos hactive, runIf, if_pos hactive]
    show (derefThread sched.next >>= _) (k.withActive sched.next) = _
    rw [bind_apply_of_ok (derefThread_apply (by exact hn))]
    exact bind_apply_of_ok (derefThread_apply hp)
  · rw [if_neg hactive, runIf, if_neg hactive]
    show (derefThread sched.next >>= _) k = _
    rw [bind_apply_of_ok (derefThread_apply hn)]
    exact bind_apply_of_ok (derefThread_apply hp)

/-- The thread is no longer runnable. -/
def Kernel.retire (k : Kernel) (uid : ThreadUid) : Kernel :=
  k.setThread uid { k.thread uid with state := .old }

theorem schedulerRemove_apply (hlive : k.live uid = true) (hstate : (k.thread uid).state = .active)
    (hlocked : uid ≠ k.activeThread ∨ k.locked = true)
    (hremove : ringRemove uid (k.thread uid).schedInfo k = .ok () k') :
    schedulerRemove uid k = .ok () (k'.retire uid) := by
  rw [schedulerRemove, get_bind_apply, bind_apply_of_ok (dassertSome_threadGet_apply hlive),
    bind_apply_of_ok (dassert_apply hstate), get_bind_apply, bind_apply_of_ok (dassert_apply hlocked),
    bind_apply_of_ok hremove]
  rfl

theorem schedulerRemove_meets (h : schedulerRemove uid k = .ok () k') :
    k.live uid = true ∧ (k.thread uid).state = .active ∧
      (uid ≠ k.activeThread ∨ k.locked = true) := by
  simp only [schedulerRemove, get_bind_apply, bind_eq_ok, dassertSome_threadGet_eq_ok,
    dassert_eq_ok] at h
  obtain ⟨_, _, ⟨hlive, rfl, rfl⟩, _, _, ⟨hstate, rfl⟩, _, _, ⟨hlocked, rfl⟩, -⟩ := h
  exact ⟨hlive, hstate, hlocked⟩

theorem Kernel.live_retire : (k.retire uid).live = k.live := funext fun _ => live_setThread

theorem Kernel.state_retire {v : ThreadUid} :
    ((k.retire uid).thread v).state = if v = uid then .old else (k.thread v).state := by
  rw [retire, thread_setThread]
  split <;> rfl

theorem Kernel.owner_retire {v : ThreadUid} :
    ((k.retire uid).thread v).owner = (k.thread v).owner := by
  rw [retire, thread_setThread]
  split
  · next hv => rw [hv]
  · rfl

theorem Kernel.next_retire : (k.retire uid).next = k.next :=
  next_setThread.trans (Function.update_eq_self _ _)

theorem Kernel.prev_retire : (k.retire uid).prev = k.prev :=
  prev_setThread.trans (Function.update_eq_self _ _)

theorem Kernel.slice_retire : (k.retire uid).slice = k.slice :=
  slice_setThread.trans (Function.update_eq_self _ _)

/-- `scheduler_remove` erases; the successor of the running thread runs in its place. -/
theorem Kernel.Scheduled.remove (hk : k.Scheduled l) (hu : uid ∈ l)
    (hlocked : uid ≠ k.activeThread ∨ k.locked = true) :
    ∃ k', schedulerRemove uid k = .ok () k' ∧ k'.Scheduled (l.erase uid) ∧
      k'.slice = k.slice ∧ k'.locked = k.locked ∧ k'.liveProcess = k.liveProcess := by
  obtain ⟨hlive, hstate⟩ := (hk.mem uid).mp hu
  have hmem : ∀ v, v ∈ l.erase uid ↔
      k.live v = true ∧ (if v = uid then .old else (k.thread v).state) = .active := by
    intro v
    rw [hk.ring.nodup.mem_erase_iff, hk.mem]
    by_cases hv : v = uid
    · simp [hv]
    · simp [hv]
  -- The source leaves the links of the last thread alone.
  by_cases halone : k.next uid = uid
  · have hl := (hk.ring.next_eq_self hu).mp halone
    refine ⟨_, schedulerRemove_apply hlive hstate hlocked (ringRemove_alone halone),
      ⟨?_, fun v => ?_, ?_, fun v hv => ?_⟩, slice_retire, rfl, rfl⟩
    · rw [hl, List.erase_cons_head]
      trivial
    · rw [hmem, live_retire, state_retire]
      rfl
    · rw [hl, List.erase_cons_head]
      rfl
    · rw [live_retire] at hv
      rw [owner_retire]
      exact hk.owner v hv
  · have hne : l ≠ [uid] := fun hl => halone ((hk.ring.next_eq_self hu).mpr hl)
    refine ⟨_, schedulerRemove_apply hlive hstate hlocked (ringRemove_between halone
      (hk.live_of_mem (hk.ring.next_mem hu)) (hk.live_of_mem (hk.ring.prev_mem hu))),
      ⟨?_, fun v => ?_, ?_, fun v hv => ?_⟩, ?_, rfl, rfl⟩
    · rw [next_retire, prev_retire, next_setNext, next_setPrev, prev_setNext, prev_setPrev,
        next_withActive, prev_withActive]
      exact hk.ring.erase hu hne
    · rw [hmem, live_retire, state_retire, live_setSched, live_setSched, live_withActive,
        state_setSched, state_setSched, thread_withActive]
    · show (if k.activeThread = uid then k.next uid else k.activeThread) = _
      cases l with
      | nil => cases hu
      | cons a l =>
        rw [hk.activeThread_cons]
        by_cases ha : a = uid
        · subst ha
          cases l with
          | nil => exact absurd rfl hne
          | cons z l =>
            rw [if_pos rfl, List.erase_cons_head]
            exact hk.ring.2.1
        · rw [if_neg ha, List.erase_cons_tail (by simpa using ha)]
          rfl
    · rw [live_retire, live_setSched, live_setSched, live_withActive] at hv
      rw [owner_retire, owner_setSched, owner_setSched, thread_withActive]
      exact hk.owner v hv
    · rw [slice_retire, slice_setNext, slice_setPrev, slice_withActive]

/-! ## Purging -/

theorem runIf_apply_pos {c : Prop} [Decidable c] {x : KernelM Unit} (h : c) :
    runIf c x k = x k := by
  rw [runIf, if_pos h]

theorem runIf_apply_neg {c : Prop} [Decidable c] {x : KernelM Unit} (h : ¬c) :
    runIf c x k = .ok () k := by
  rw [runIf, if_neg h]
  rfl

theorem Kernel.Scheduled.purgeOne {pid : Pid} (hk : k.Scheduled l)
    (hproc : k.liveProcess pid = true) (tid : Tid) : (runIf ((k.blocks pid).live tid = true) do
        let target ← derefThread { pid, tid }
        runIf (target.state = .active) (schedulerRemove { pid, tid })) k =
      if { pid, tid } ∈ l then schedulerRemove { pid, tid } k else .ok () k := by
  split
  · next hu =>
    obtain ⟨hlive, hstate⟩ := (hk.mem _).mp hu
    rw [runIf_apply_pos (Kernel.live_block hlive), bind_apply_of_ok (derefThread_apply hlive),
      runIf_apply_pos hstate]
  · next hu =>
    by_cases hslot : (k.blocks pid).live tid = true
    · have hlive : k.live { pid, tid } = true := by
        rw [Kernel.live, hproc]
        exact hslot
      have hstate : (k.thread { pid, tid }).state ≠ .active := fun hstate =>
        hu ((hk.mem _).mpr ⟨hlive, hstate⟩)
      rw [runIf_apply_pos hslot, bind_apply_of_ok (derefThread_apply hlive),
        runIf_apply_neg hstate]
    · rw [runIf_apply_neg hslot]

theorem Kernel.Scheduled.active_erase (hk : k.Scheduled l) (hk' : k'.Scheduled (l.erase uid))
    (hne : uid ≠ k.activeThread) : k'.activeThread = k.activeThread := by
  rw [hk'.active, hk.active]
  cases l with
  | nil => rfl
  | cons a l =>
    have ha : a ≠ uid := fun ha => hne (ha ▸ hk.activeThread_cons.symm)
    rw [List.erase_cons_tail (by simpa using ha)]
    rfl

theorem Kernel.Scheduled.purgeThreads {pid : Pid} (hk : k.Scheduled l)
    (hproc : k.liveProcess pid = true) {tids : List Tid} (h : purgeThreads pid tids k = .ok () k') :
    k'.Scheduled (l.filter fun u => ¬(u.pid = pid ∧ u.tid ∈ tids)) ∧ k'.slice = k.slice := by
  induction tids generalizing k l with
  | nil =>
    cases h
    exact ⟨by simpa using hk, rfl⟩
  | cons tid tids ih =>
    rw [Horizon.purgeThreads, get_bind_apply] at h
    obtain ⟨⟨⟩, k₁, hone, hrest⟩ := bind_eq_ok.mp h
    rw [hk.purgeOne hproc tid] at hone
    -- Erasing one thread after the other leaves what the filter does.
    have hfilter : (l.erase { pid, tid }).filter (fun u => ¬(u.pid = pid ∧ u.tid ∈ tids)) =
        l.filter fun u => ¬(u.pid = pid ∧ u.tid ∈ tid :: tids) := by
      rw [hk.ring.nodup.erase_eq_filter, List.filter_filter]
      refine List.filter_congr fun u _ => ?_
      rw [Bool.eq_iff_iff]
      simp only [List.mem_cons, Bool.and_eq_true, decide_eq_true_eq, bne_iff_ne, ne_eq,
        ThreadUid.ext_iff]
      tauto
    rw [← hfilter]
    split at hone
    · next hu =>
      obtain ⟨k₂, hremove, hk₂, hslice, -, hproc₂⟩ := hk.remove hu
        (schedulerRemove_meets hone).2.2
      cases hone.symm.trans hremove
      obtain ⟨hk', hslice'⟩ := ih hk₂ (by rw [hproc₂]; exact hproc) hrest
      exact ⟨hk', hslice'.trans hslice⟩
    · next hu =>
      cases hone
      rw [List.erase_of_not_mem hu]
      exact ih hk hproc hrest

/-- The running thread may be among those that are removed only while the scheduler is locked. -/
theorem Kernel.Scheduled.purgeThreads_returns {pid : Pid} (hk : k.Scheduled l)
    (hproc : k.liveProcess pid = true) (hlocked : k.activeThread.pid ≠ pid ∨ k.locked = true)
    (tids : List Tid) : ∃ k', Horizon.purgeThreads pid tids k = .ok () k' := by
  induction tids generalizing k l with
  | nil => exact ⟨k, rfl⟩
  | cons tid tids ih =>
    rw [Horizon.purgeThreads, get_bind_apply]
    have hone := hk.purgeOne hproc tid
    split at hone
    · next hu =>
      have hne : ({ pid, tid } : ThreadUid) ≠ k.activeThread ∨ k.locked = true :=
        hlocked.imp_left fun hpid heq => hpid (by rw [← heq])
      obtain ⟨k₁, hremove, hk₁, -, hlock₁, hproc₁⟩ := hk.remove hu hne
      rw [bind_apply_of_ok (hone.trans hremove)]
      refine ih hk₁ (by rw [hproc₁]; exact hproc) ?_
      rcases hlocked with hpid | hlock
      · left
        rw [hk.active_erase hk₁ fun heq => hpid (by rw [← heq])]
        exact hpid
      · exact Or.inr (hlock₁.trans hlock)
    · rw [bind_apply_of_ok hone]
      exact ih hk hproc hlocked

theorem mem_allTids (tid : Tid) : tid ∈ allTids := by
  refine List.mem_map.mpr ⟨tid.toNat, List.mem_range.mpr tid.isLt, ?_⟩
  rw [BitVec.ofNat_toNat, BitVec.setWidth_eq]

theorem schedulerPurge_apply {pid : Pid} (hproc : k.liveProcess pid = true) :
    schedulerPurge pid k = Horizon.purgeThreads pid allTids k := by
  have hget : dassertSome (k.processGet pid) k = .ok (k.blocks pid).process k :=
    orThrow_eq_ok.mpr ⟨Kernel.processGet_eq_some.mpr ⟨hproc, rfl⟩, rfl⟩
  rw [schedulerPurge, get_bind_apply, bind_apply_of_ok hget]

/-- `scheduler_purge` keeps the threads of the other processes. -/
theorem Kernel.Scheduled.purge {pid : Pid} (hk : k.Scheduled l)
    (h : schedulerPurge pid k = .ok () k') :
    k'.Scheduled (l.filter fun u => u.pid ≠ pid) ∧ k'.slice = k.slice := by
  have hproc : k.liveProcess pid = true := by
    rw [schedulerPurge, get_bind_apply] at h
    obtain ⟨_, _, hget, -⟩ := bind_eq_ok.mp h
    exact (Kernel.processGet_eq_some.mp (orThrow_eq_ok.mp hget).1).1
  rw [schedulerPurge_apply hproc] at h
  have hpurge := hk.purgeThreads hproc h
  simpa only [mem_allTids, and_true] using hpurge

/-! ## Switching -/

theorem preserve_undisturbed (k : Kernel) (uid : ThreadUid) : Undisturbed k (k.preserve uid) :=
  taskPreserve_undisturbed uid k

theorem resume_undisturbed (k : Kernel) (uid : ThreadUid) : Undisturbed k (k.resume uid) :=
  ⟨fun _ => rfl, fun _ => rfl, fun _ => rfl, fun _ => rfl, fun _ => rfl, rfl⟩

theorem derefProcess_apply {pid : Pid} (h : k.liveProcess pid = true) :
    derefProcess pid k = .ok (k.blocks pid).process k := derefProcess_eq_ok.mpr ⟨h, rfl, rfl⟩

/-- The ring has been turned, and the running thread's timeslice is full again. -/
def Kernel.turned (k : Kernel) (uid : ThreadUid) : Kernel :=
  (k.setSched uid fun s => { s with timeslice := schedulerTimeslice }).withActive (k.next uid)

theorem Kernel.slice_turned :
    (k.turned uid).slice = Function.update k.slice uid schedulerTimeslice := slice_setThread

theorem Kernel.next_turned : (k.turned uid).next = k.next :=
  next_setThread.trans (Function.update_eq_self _ _)

theorem Kernel.prev_turned : (k.turned uid).prev = k.prev :=
  prev_setThread.trans (Function.update_eq_self _ _)

theorem Kernel.live_turned : (k.turned uid).live = k.live := by
  rw [turned, live_withActive, live_setSched]

theorem Kernel.owner_turned {v : ThreadUid} :
    ((k.turned uid).thread v).owner = (k.thread v).owner := by
  rw [turned, thread_withActive, owner_setSched]

theorem Kernel.Scheduled.turned {a : ThreadUid} (hk : k.Scheduled (a :: l)) :
    (k.turned a).Scheduled (l ++ [a]) where
  ring := by
    rw [next_turned, prev_turned]
    exact hk.ring.rotate
  mem u := by
    rw [live_turned, Kernel.turned, thread_withActive, state_setSched, ← hk.mem,
      (List.perm_append_singleton a l).mem_iff]
  active := by
    show k.next a = _
    rw [hk.ring.next_eq, List.head?_eq_some_head (by simp)]
    rfl
  owner u hlive := by
    rw [live_turned] at hlive
    rw [owner_turned]
    exact hk.owner u hlive

/-- The address space of a process is loaded. -/
def Kernel.loadDir (k : Kernel) (pid : Pid) : Kernel :=
  { k with vm := { k.vm with cr3 := (k.blocks pid).process.addrSpace } }

theorem loadDir_undisturbed (k : Kernel) (pid : Pid) : Undisturbed k (k.loadDir pid) :=
  ⟨fun _ => rfl, fun _ => rfl, fun _ => rfl, fun _ => rfl, fun _ => rfl, rfl⟩

/-- The state after a switch from `a` to its successor. -/
def Kernel.advanced (k : Kernel) (a : ThreadUid) : Kernel :=
  let turned := k.turned a
  let owner := (k.thread (k.next a)).owner
  let loaded := if (k.thread a).owner ≠ owner then turned.loadDir owner else turned
  (loaded.preserve a).resume (k.next a)

theorem Kernel.advanced_undisturbed (k : Kernel) (a : ThreadUid) :
    Undisturbed (k.turned a) (k.advanced a) := by
  have hloaded : ∀ (c : Prop) [Decidable c] (pid : Pid), Undisturbed (k.turned a)
      (if c then (k.turned a).loadDir pid else k.turned a) := by
    intro c _ pid
    split
    · exact loadDir_undisturbed _ _
    · exact Std.Refl.refl _
  exact IsTrans.trans _ _ _ (hloaded _ _)
    (IsTrans.trans _ _ _ (preserve_undisturbed _ a) (resume_undisturbed _ _))

theorem schedulerNext_alone (hactive : k.activeThread = uid) (hlive : k.live uid = true)
    (halone : uid = k.next uid) : schedulerNext k = .ok () (k.turned uid) := by
  have hturned : k.turned uid =
      k.setSched uid fun s => { s with timeslice := schedulerTimeslice } := by
    rw [Kernel.turned, ← halone]
    subst hactive
    rfl
  rw [schedulerNext, get_bind_apply, hactive, bind_apply_of_ok (derefThread_apply hlive),
    bind_apply_of_ok modifySched_apply, hturned]
  exact congrFun (if_pos halone) _

theorem schedulerNext_switch (hactive : k.activeThread = uid) (hlive : k.live uid = true)
    (hne : uid ≠ k.next uid) (hnext : k.live (k.next uid) = true)
    (howner : (k.thread uid).owner ≠ (k.thread (k.next uid)).owner →
      k.liveProcess (k.thread (k.next uid)).owner = true) :
    schedulerNext k = .ok () (k.advanced uid) := by
  rw [schedulerNext, get_bind_apply, hactive, bind_apply_of_ok (derefThread_apply hlive),
    bind_apply_of_ok modifySched_apply]
  refine (congrFun (if_neg hne) _).trans ?_
  have hload : ∀ pid, ((k.thread uid).owner ≠ pid → k.liveProcess pid = true) →
      (runIf ((k.thread uid).owner ≠ pid) do
        let proc ← derefProcess pid
        pagingPasLoad proc.addrSpace) (k.turned uid) =
      .ok () (if (k.thread uid).owner ≠ pid then (k.turned uid).loadDir pid else k.turned uid) := by
    intro pid hpid
    by_cases hsame : (k.thread uid).owner ≠ pid
    · have hproc : (k.turned uid).liveProcess pid = true := hpid hsame
      rw [runIf_apply_pos hsame, if_pos hsame, bind_apply_of_ok (derefProcess_apply hproc)]
      rfl
    · rw [runIf_apply_neg hsame, if_neg hsame]
  have hget : dassertSome ((k.turned uid).threadGet (k.next uid)) (k.turned uid) =
      .ok ((k.turned uid).thread (k.next uid)) (k.turned uid) :=
    dassertSome_threadGet_apply (by rw [Kernel.live_turned]; exact hnext)
  show ((dassertSome ((k.turned uid).threadGet (k.next uid)) >>= _ : KernelM Unit))
    (k.turned uid) = _
  rw [bind_apply_of_ok hget, Kernel.owner_turned, bind_apply_of_ok (hload _ howner), taskSwitch_some]
  rfl

theorem Kernel.Scheduled.advance {a : ThreadUid} (hk : k.Scheduled (a :: l)) :
    ∃ k', schedulerNext k = .ok () k' ∧ k'.Scheduled (l ++ [a]) ∧
      k'.slice = Function.update k.slice a schedulerTimeslice := by
  have ha := hk.live_of_mem List.mem_cons_self
  have hnext := hk.live_of_mem (hk.ring.next_mem List.mem_cons_self)
  by_cases halone : a = k.next a
  · exact ⟨_, schedulerNext_alone hk.activeThread_cons ha halone, hk.turned, slice_turned⟩
  · have hdone := k.advanced_undisturbed a
    exact ⟨_, schedulerNext_switch hk.activeThread_cons ha halone hnext
      fun _ => hk.owner _ hnext,
      hdone.scheduled hk.turned, hdone.slice.trans slice_turned⟩

/-! ## Locking -/

def Kernel.withLock (k : Kernel) (locked : Bool) : Kernel := { k with locked }

theorem withLock_undisturbed (k : Kernel) (locked : Bool) : Undisturbed k (k.withLock locked) :=
  ⟨fun _ => rfl, fun _ => rfl, fun _ => rfl, fun _ => rfl, fun _ => rfl, rfl⟩

theorem schedulerLock_apply (hlive : k.live k.activeThread = true) :
    schedulerLock k = .ok () ((k.withLock true).preserve k.activeThread) := by
  have hlive' : (k.withLock true).live k.activeThread = true := hlive
  exact bind_apply_of_ok (derefThread_apply hlive')

theorem schedulerUnlock_apply (hactive : k.activeThread ≠ 0) (hlive : k.live k.activeThread = true)
    (howner : k.liveProcess (k.thread k.activeThread).owner = true) : schedulerUnlock k = .ok ()
      (((k.withLock false).loadDir (k.thread k.activeThread).owner).resume k.activeThread) := by
  have hlive' : (k.withLock false).live k.activeThread = true := hlive
  have howner' : (k.withLock false).liveProcess (k.thread k.activeThread).owner = true := howner
  rw [schedulerUnlock, get_bind_apply, bind_apply_of_ok (dassert_apply hactive)]
  refine (bind_apply_of_ok (derefThread_apply hlive')).trans ?_
  refine (bind_apply_of_ok (derefProcess_apply howner')).trans ?_
  exact taskSwitch_none _ _

/-- The running thread has used a tick. -/
def Kernel.ticked (k : Kernel) (uid : ThreadUid) : Kernel :=
  k.setSched uid fun s => { s with timeslice := s.timeslice - 1 }

theorem Kernel.slice_ticked :
    (k.ticked uid).slice = Function.update k.slice uid (k.slice uid - 1) := slice_setThread

theorem Kernel.Scheduled.ticked (hk : k.Scheduled l) (uid : ThreadUid) : (k.ticked uid).Scheduled l where
  ring := by
    have hnext : (k.ticked uid).next = k.next :=
      next_setThread.trans (Function.update_eq_self _ _)
    have hprev : (k.ticked uid).prev = k.prev :=
      prev_setThread.trans (Function.update_eq_self _ _)
    rw [hnext, hprev]
    exact hk.ring
  mem u := by
    rw [Kernel.ticked, live_setSched, state_setSched]
    exact hk.mem u
  active := hk.active
  owner u hlive := by
    rw [Kernel.ticked, live_setSched] at hlive
    rw [Kernel.ticked, owner_setSched]
    exact hk.owner u hlive

theorem timerTick_apply (hactive : k.activeThread = uid) (hlive : k.live uid = true) : timerTick k =
      if k.slice uid - 1 = 0 then schedulerNext (k.ticked uid) else .ok () (k.ticked uid) := by
  rw [timerTick, get_bind_apply, get_bind_apply, hactive,
    bind_apply_of_ok (dassertSome_threadGet_apply hlive), bind_apply_of_ok modifySched_apply]
  show (if k.slice uid - 1 = 0 then schedulerNext else pure () : KernelM Unit) _ = _
  split <;> rfl

/-! ## The ring refines a round robin queue -/

/-- The entry points of the scheduler. -/
inductive SchedOp where
  | add (uid : ThreadUid)
  | remove (uid : ThreadUid)
  | purge (pid : Pid)
  | next
  | lock
  | unlock
  | tick
deriving DecidableEq

/-- The function of `scheduler.c` that an operation calls. -/
def SchedOp.run : SchedOp → KernelM Unit
  | .add uid => schedulerAdd uid
  | .remove uid => schedulerRemove uid
  | .purge pid => schedulerPurge pid
  | .next => schedulerNext
  | .lock => schedulerLock
  | .unlock => schedulerUnlock
  | .tick => timerTick

/-- An operation that returns, so that no assertion is tripped. -/
def schedStep (k : Kernel) (op : SchedOp) : Option Kernel := returned (op.run k) ()

/-- What an operation does to the queue. -/
def SchedOp.effect : SchedOp → RoundRobin.Op ThreadUid
  | .add uid => .enqueue uid
  | .remove uid => .keep (· != uid)
  | .purge pid => .keep fun u => u.pid ≠ pid
  | .next => .turn
  | .lock => .idle
  | .unlock => .idle
  | .tick => .tick

/-- What the assertions of an operation ask for. -/
def SchedOp.Meets (k : Kernel) : SchedOp → Prop
  | .add uid => k.live uid = true ∧ (k.thread uid).state ≠ .active
  | .remove uid => k.live uid = true ∧ (k.thread uid).state = .active ∧
      (uid ≠ k.activeThread ∨ k.locked = true)
  | .purge pid => k.liveProcess pid = true ∧ (k.activeThread.pid ≠ pid ∨ k.locked = true)
  | _ => k.activeThread ≠ 0

/-- The ring as a queue, with the timeslices. -/
def Kernel.queue (k : Kernel) (l : List ThreadUid) : RoundRobin.Queue ThreadUid :=
  ⟨l, fun uid => (k.slice uid).toNat⟩

theorem Kernel.queue_congr (h : k'.slice = k.slice) : k'.queue l = k.queue l := by
  rw [queue, queue, h]

theorem Kernel.queue_update {l' : List ThreadUid} {s : Word}
    (h : k'.slice = Function.update k.slice uid s) :
    k'.queue l' = ⟨l', Function.update (k.queue l).slice uid s.toNat⟩ := by
  rw [queue, h]
  exact congrArg _ (Function.comp_update BitVec.toNat k.slice uid s)

theorem schedStep_eq_some {op : SchedOp} : schedStep k op = some k' ↔ op.run k = .ok () k' :=
  returned_eq_some

theorem Kernel.Scheduled.exists_cons (hk : k.Scheduled l) (h : k.activeThread ≠ 0) :
    ∃ a l', l = a :: l' := by
  cases l with
  | nil => exact absurd hk.active h
  | cons a l' => exact ⟨a, l', rfl⟩

theorem Kernel.activeThread_ne_zero (h : k.live k.activeThread = true) : k.activeThread ≠ 0 :=
  fun hzero => pid_ne_zero_of_live h (by rw [hzero]; rfl)

theorem SchedOp.meets_of_ok {op : SchedOp} (hpurge : ∀ pid, op ≠ .purge pid)
    (h : op.run k = .ok () k') : op.Meets k := by
  cases op with
  | add uid =>
    obtain ⟨hlive, hstate, -⟩ := schedulerAdd_eq_ok h
    exact ⟨hlive, hstate⟩
  | remove uid => exact schedulerRemove_meets h
  | purge pid => exact absurd rfl (hpurge pid)
  | next =>
    rw [run, schedulerNext, get_bind_apply] at h
    obtain ⟨_, _, hderef, -⟩ := bind_eq_ok.mp h
    exact Kernel.activeThread_ne_zero (derefThread_eq_ok.mp hderef).1
  | lock =>
    rw [run, schedulerLock, modify_bind_apply, get_bind_apply] at h
    obtain ⟨_, _, hderef, -⟩ := bind_eq_ok.mp h
    have hlive : k.live k.activeThread = true := (derefThread_eq_ok.mp hderef).1
    exact Kernel.activeThread_ne_zero hlive
  | unlock =>
    rw [run, schedulerUnlock, get_bind_apply] at h
    obtain ⟨_, _, hassert, -⟩ := bind_eq_ok.mp h
    exact (dassert_eq_ok.mp hassert).1
  | tick =>
    rw [run, timerTick, get_bind_apply, get_bind_apply] at h
    obtain ⟨_, _, hget, -⟩ := bind_eq_ok.mp h
    exact Kernel.activeThread_ne_zero (dassertSome_threadGet_eq_ok.mp hget).1

/-- The queue after an operation. -/
structure Kernel.Follows (k : Kernel) (l : List ThreadUid) (op : SchedOp) (k' : Kernel) : Prop where
  scheduled : k'.Scheduled ((k.queue l).apply schedulerTimeslice.toNat op.effect).tasks
  queue : k'.queue ((k.queue l).apply schedulerTimeslice.toNat op.effect).tasks =
    (k.queue l).apply schedulerTimeslice.toNat op.effect

theorem Kernel.Scheduled.turn {a : ThreadUid} (hk : k.Scheduled (a :: l)) :
    ∃ k', schedulerNext k = .ok () k' ∧
      k'.Scheduled ((k.queue (a :: l)).turn schedulerTimeslice.toNat).tasks ∧
      k'.queue ((k.queue (a :: l)).turn schedulerTimeslice.toNat).tasks =
        (k.queue (a :: l)).turn schedulerTimeslice.toNat := by
  obtain ⟨k', hnext, hk', hslice⟩ := hk.advance
  exact ⟨k', hnext, hk', queue_update hslice⟩

theorem Kernel.Scheduled.step_unlock {a : ThreadUid} (hk : k.Scheduled (a :: l)) :
    ∃ k', schedulerUnlock k = .ok () k' ∧ Undisturbed k k' := by
  have hactive := hk.activeThread_cons
  have hlive : k.live k.activeThread = true := by
    rw [hactive]
    exact hk.live_of_mem List.mem_cons_self
  refine ⟨_, schedulerUnlock_apply (activeThread_ne_zero hlive) hlive (hk.owner _ hlive), ?_⟩
  exact IsTrans.trans _ _ _ (withLock_undisturbed k false)
    (IsTrans.trans _ _ _ (loadDir_undisturbed _ _) (resume_undisturbed _ _))

theorem Kernel.Scheduled.step_lock {a : ThreadUid} (hk : k.Scheduled (a :: l)) :
    ∃ k', schedulerLock k = .ok () k' ∧ Undisturbed k k' := by
  have hlive : k.live k.activeThread = true := by
    rw [hk.activeThread_cons]
    exact hk.live_of_mem List.mem_cons_self
  exact ⟨_, schedulerLock_apply hlive,
    IsTrans.trans _ _ _ (withLock_undisturbed k true) (preserve_undisturbed _ _)⟩

theorem Undisturbed.follows {op : SchedOp} (h : Undisturbed k k') (hk : k.Scheduled l)
    (hop : op.effect = .idle) : k.Follows l op k' := by
  constructor
  · rw [hop]
    exact h.scheduled hk
  · rw [hop]
    exact Kernel.queue_congr h.slice

theorem Kernel.Scheduled.step_tick {a : ThreadUid} (hk : k.Scheduled (a :: l))
    (hslice : 1 ≤ (k.slice a).toNat) :
    ∃ k', timerTick k = .ok () k' ∧ k.Follows (a :: l) .tick k' := by
  have happly := timerTick_apply hk.activeThread_cons (hk.live_of_mem List.mem_cons_self)
  by_cases hlast : k.slice a - 1 = 0
  · obtain ⟨k', hnext, hk', hadvance⟩ := (hk.ticked a).advance
    have htick : (k.queue (a :: l)).apply schedulerTimeslice.toNat SchedOp.tick.effect =
        ⟨l ++ [a], Function.update (k.queue (a :: l)).slice a schedulerTimeslice.toNat⟩ :=
      RoundRobin.Queue.tick_last (show (k.slice a).toNat = 1 by bv_omega)
    rw [slice_ticked, Function.update_idem] at hadvance
    rw [if_pos hlast] at happly
    refine ⟨k', happly.trans hnext, ?_, ?_⟩
    · rw [htick]
      exact hk'
    · rw [htick]
      exact queue_update hadvance
  · have htick : (k.queue (a :: l)).apply schedulerTimeslice.toNat SchedOp.tick.effect =
        ⟨a :: l, Function.update (k.queue (a :: l)).slice a ((k.slice a).toNat - 1)⟩ :=
      RoundRobin.Queue.tick_more (show (k.slice a).toNat ≠ 1 by bv_omega)
    have hsub : (k.slice a - 1).toNat = (k.slice a).toNat - 1 := by bv_omega
    rw [if_neg hlast] at happly
    refine ⟨_, happly, ?_, ?_⟩
    · rw [htick]
      exact hk.ticked a
    · rw [htick, ← hsub]
      exact queue_update slice_ticked

/-- Every operation does to the ring what its effect says. -/
theorem Kernel.Scheduled.step {op : SchedOp} (hk : k.Scheduled l)
    (hfair : (k.queue l).Fair schedulerTimeslice.toNat) (h : schedStep k op = some k') :
    k.Follows l op k' ∧ (k.queue l).Allows op.effect := by
  rw [schedStep_eq_some] at h
  have hmeets := fun hpurge => op.meets_of_ok hpurge h
  cases op with
  | add uid =>
    obtain ⟨hlive, hstate⟩ := hmeets nofun
    obtain ⟨k₁, hadd, hk₁, hslice, -⟩ := hk.add hlive hstate
    cases h.symm.trans hadd
    exact ⟨⟨hk₁, queue_update hslice⟩, fun hmem => hstate ((hk.mem uid).mp hmem).2⟩
  | remove uid =>
    obtain ⟨hlive, hstate, hlocked⟩ := hmeets nofun
    obtain ⟨k₁, hremove, hk₁, hslice, -⟩ := hk.remove ((hk.mem uid).mpr ⟨hlive, hstate⟩) hlocked
    cases h.symm.trans hremove
    rw [hk.ring.nodup.erase_eq_filter] at hk₁
    exact ⟨⟨hk₁, queue_congr hslice⟩, trivial⟩
  | purge pid =>
    obtain ⟨hk', hslice⟩ := hk.purge h
    exact ⟨⟨hk', queue_congr hslice⟩, trivial⟩
  | next =>
    obtain ⟨a, l, rfl⟩ := hk.exists_cons (hmeets nofun)
    obtain ⟨k₁, hnext, hk₁, hqueue⟩ := hk.turn
    cases h.symm.trans hnext
    exact ⟨⟨hk₁, hqueue⟩, trivial⟩
  | lock =>
    obtain ⟨a, l, rfl⟩ := hk.exists_cons (hmeets nofun)
    obtain ⟨k₁, hlock, hquiet⟩ := hk.step_lock
    cases h.symm.trans hlock
    exact ⟨hquiet.follows hk rfl, trivial⟩
  | unlock =>
    obtain ⟨a, l, rfl⟩ := hk.exists_cons (hmeets nofun)
    obtain ⟨k₁, hunlock, hquiet⟩ := hk.step_unlock
    cases h.symm.trans hunlock
    exact ⟨hquiet.follows hk rfl, trivial⟩
  | tick =>
    obtain ⟨a, l, rfl⟩ := hk.exists_cons (hmeets nofun)
    obtain ⟨k₁, htick, hfollows⟩ := hk.step_tick (hfair.slice a List.mem_cons_self).1
    cases h.symm.trans htick
    exact ⟨hfollows, trivial⟩

/-- No operation whose assertions hold stops in the middle. -/
theorem Kernel.Scheduled.returns {op : SchedOp} (hk : k.Scheduled l)
    (hfair : (k.queue l).Fair schedulerTimeslice.toNat) (hmeets : op.Meets k) :
    ∃ k', schedStep k op = some k' := by
  suffices h : ∃ k', op.run k = .ok () k' from h.imp fun _ => schedStep_eq_some.mpr
  cases op with
  | add uid =>
    obtain ⟨k', h, -⟩ := hk.add hmeets.1 hmeets.2
    exact ⟨k', h⟩
  | remove uid =>
    obtain ⟨hlive, hstate, hlocked⟩ := hmeets
    obtain ⟨k', h, -⟩ := hk.remove ((hk.mem uid).mpr ⟨hlive, hstate⟩) hlocked
    exact ⟨k', h⟩
  | purge pid =>
    obtain ⟨k', h⟩ := hk.purgeThreads_returns hmeets.1 hmeets.2 allTids
    exact ⟨k', (schedulerPurge_apply hmeets.1).trans h⟩
  | next =>
    obtain ⟨a, l, rfl⟩ := hk.exists_cons hmeets
    obtain ⟨k', h, -⟩ := hk.turn
    exact ⟨k', h⟩
  | lock =>
    obtain ⟨a, l, rfl⟩ := hk.exists_cons hmeets
    obtain ⟨k', h, -⟩ := hk.step_lock
    exact ⟨k', h⟩
  | unlock =>
    obtain ⟨a, l, rfl⟩ := hk.exists_cons hmeets
    obtain ⟨k', h, -⟩ := hk.step_unlock
    exact ⟨k', h⟩
  | tick =>
    obtain ⟨a, l, rfl⟩ := hk.exists_cons hmeets
    obtain ⟨k', h, -⟩ := hk.step_tick (hfair.slice a List.mem_cons_self).1
    exact ⟨k', h⟩

/-- The ring and its timeslices are in order. -/
def Kernel.InTurn (k : Kernel) (l : List ThreadUid) : Prop :=
  k.Scheduled l ∧ (k.queue l).Fair schedulerTimeslice.toNat

theorem Kernel.InTurn.step {op : SchedOp} (hk : k.InTurn l) (h : schedStep k op = some k') :
    k'.InTurn ((k.queue l).apply schedulerTimeslice.toNat op.effect).tasks := by
  obtain ⟨⟨hk', hqueue⟩, hallows⟩ := hk.1.step hk.2 h
  refine ⟨hk', ?_⟩
  rw [hqueue]
  exact hk.2.apply (by decide) hallows

theorem Kernel.Scheduled.inTurn_of_run {k₀ : Kernel} {ops : List SchedOp}
    {P : Kernel → SchedOp → Kernel → Prop} (hidle : k₀.Scheduled [])
    (hrun : Steps schedStep P k₀ ops k) : ∃ l, k.InTurn l := by
  refine hrun.invariant (I := fun k => ∃ l, k.InTurn l) ?_ ⟨[], hidle, List.nodup_nil, nofun⟩
  rintro k op k' ⟨l, hk⟩ hstep -
  exact ⟨_, hk.step hstep⟩

/-- From a kernel without runnable threads on, the scheduler's operations, used as their
assertions require, keep a ring of exactly the active threads, and are list operations on it. -/
theorem runQueue_of_run {k₀ : Kernel} {ops : List SchedOp} (hidle : k₀.Scheduled [])
    (hrun : Steps schedStep (fun _ _ _ => True) k₀ ops k) :
    ∃ l, k.Scheduled l ∧ (∀ u ∈ l, k.prev (k.next u) = u) ∧
      (k.activeThread = 0 ↔ ∀ u, ¬(k.live u = true ∧ (k.thread u).state = .active)) ∧
      ∀ op : SchedOp, (op.Meets k → ∃ k', schedStep k op = some k') ∧
        ∀ k', schedStep k op = some k' →
          k'.Scheduled ((k.queue l).apply schedulerTimeslice.toNat op.effect).tasks := by
  obtain ⟨l, hk, hfair⟩ := hidle.inTurn_of_run hrun
  refine ⟨l, hk, fun u hu => hk.ring.prev_next hu, ?_, fun op => ⟨hk.returns hfair, ?_⟩⟩
  · rw [hk.active_eq_zero, List.eq_nil_iff_forall_not_mem]
    exact forall_congr' fun u => not_congr (hk.mem u)
  · intro k' hstep
    exact (hk.step hfair hstep).1.scheduled

/-- One process with three threads, none of which has been started. -/
def threeThreads : Kernel :=
  { Kernel.initial (smallVm fun _ => 0) with
    blockMap := ((({} : Bmstack).set 0).set 1).set 2
    blocks := fun _ =>
      { process := { pid := 2, threadInfo := { count := 3, bitmap := fun _ => 7 } }
        threads := fun tid => { tid, owner := 2 } } }

theorem threeThreads_scheduled : threeThreads.Scheduled [] where
  ring := trivial
  mem _ := ⟨nofun, nofun⟩
  active := rfl
  owner _ _ := (by decide +kernel : threeThreads.liveProcess 2 = true)

/-- The running thread blocks, which makes its successor the running one. -/
theorem ring_of_three_threads :
    ∃ k l, Steps schedStep (fun _ _ _ => True) threeThreads
        [.add ⟨2, 0⟩, .add ⟨2, 1⟩, .add ⟨2, 2⟩, .next, .lock, .remove ⟨2, 1⟩, .unlock, .tick] k ∧
      k.activeThread = ⟨2, 2⟩ ∧ k.Scheduled l := by
  have hany : (runEvents (checked schedStep fun _ _ _ => true) threeThreads
      [.add ⟨2, 0⟩, .add ⟨2, 1⟩, .add ⟨2, 2⟩, .next, .lock, .remove ⟨2, 1⟩, .unlock, .tick]).any
      (fun k => k.activeThread = ⟨2, 2⟩) = true := by decide +kernel
  obtain ⟨k, hrun, hactive⟩ := exists_steps_of_any (P := fun _ _ _ => True)
    (fun _ _ _ _ => trivial) hany
  obtain ⟨l, hk, -⟩ := runQueue_of_run threeThreads_scheduled hrun
  exact ⟨k, l, hrun, of_decide_eq_true hactive, hk⟩

end Horizon
