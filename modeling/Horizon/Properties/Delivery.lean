import Horizon.Ipc.MailOrder
import Horizon.System.Boot
import Horizon.System.Exposed

/-!
# Horizon — wake-ups and the order of delivery

Along every run that spares the kernel's memory and in which no thread is created or killed, from
any state whose queues are proper lists:

* nobody waits for a message that it already has (`noLostWakeup_of_run`);
* what a thread removes under one sender port is what was sent under it, in the order in which
  it was sent, and the sender port is the one of the thread that called `send`
  (`order_of_run`).

The second needs the first at the start: a message that wakes its receiver is put in front of
the queue, and if an earlier message of the same sender were there, it would be overtaken
(`order_needs_noLostWakeup`). Both need the kernel's memory to be spared: `recv` stores what it
receives wherever the caller wants, and `wait_for` of a sleeping thread is as good a place as any
(`recv_loses_wakeup`).
-/

namespace Horizon

open StateError

variable {k k' k₀ : Kernel} {ev : Event} {evs : List Event}

/-- The queues of all live threads are proper lists, and the empty ones end at their head. -/
structure Kernel.WellQueued (k : Kernel) : Prop where
  linked : k.Linked nobody
  closed : ∀ u, k.live u = true → k.Closed u

/-- No thread waits for a message that is already in its queue. -/
def Kernel.NoLostWakeup (k : Kernel) : Prop :=
  ∀ u, k.live u = true → (k.thread u).state = .waiting →
    ∀ e ∈ (k.blocks u.pid).queue u.tid,
      portCompare (k.thread u).syscallInfo.waitFor e.sender = false

/-- The event creates no thread, and no thread dies. -/
def KeepsThreads (k : Kernel) (ev : Event) (k' : Kernel) : Prop :=
  ev.creates = false ∧ ∀ u, k'.live u = k.live u

theorem Kernel.noLost_mail : k.mail.NoLost ↔ k.NoLostWakeup := by
  constructor
  · intro h u hlive
    exact h u _ (Kernel.view_of_live hlive)
  · intro h u w hw
    have hlive := Kernel.live_of_view hw
    have hview := Kernel.view_of_live hlive
    rw [show k.view u = some w from hw] at hview
    cases hview
    exact h u hlive

theorem Kernel.WellQueued.not_firstWake (hk : k.WellQueued) {B : ThreadUid → IpcPort → Prop} :
    ¬FirstWake B k := by
  rintro ⟨u, sender, -, hlive, -, hopen⟩
  exact hopen (hk.closed u hlive)

theorem Kernel.WellQueued.progress (hk : k.WellQueued) (hstep : k.step ev = some k') :
    Progress k ev k' := Kernel.step_progress ⟨hk.linked⟩ hstep hk.not_firstWake

theorem Kernel.WellQueued.step (hk : k.WellQueued) (hstep : k.step ev = some k')
    (hkeep : KeepsThreads k ev k') : k'.WellQueued where
  linked := (hk.progress hstep).sound.linked
  closed u hlive := by
    obtain ⟨hlive₀, hclosed⟩ := (hk.progress hstep).kept hkeep.1 u hlive
    exact hclosed (hk.closed u hlive₀)

/-- A step that keeps the threads moves the mail on, without losing a wake-up. -/
theorem Kernel.WellQueued.follows (hk : k.WellQueued) (hlost : k.NoLostWakeup)
    (hstep : k.step ev = some k') (hkeep : KeepsThreads k ev k') :
    k'.NoLostWakeup ∧ ∃ es, k'.history = k.history ++ es ∧ Mail.Follows k.mail es k'.mail ∧
      ∀ e ∈ es, ∃ move, k.Allowed ev move ∧ e ∈ move.events ∧
        ∀ u v info, e = .sent u v info → (k.mail.view u).isSome = true := by
  obtain ⟨moves, hruns⟩ := (hk.progress hstep).runs
  have hcreate : ∀ u port damage, ¬k.Allowed ev (.create u port damage) := by
    rintro u port damage ⟨hcreates, -⟩
    rw [hkeep.1] at hcreates
    cases hcreates
  have hkeeps := Mail.Runs.keeps_of_isSome hcreate hruns fun v hv => by
    have hv' : (k.view v).isSome = true := hv
    rw [Kernel.view_isSome, ← hkeep.2, ← Kernel.view_isSome] at hv'
    exact hv'
  obtain ⟨hlost', hes⟩ := Mail.Runs.follows hruns hkeeps (Kernel.noLost_mail.mpr hlost)
  exact ⟨Kernel.noLost_mail.mp hlost', hes⟩

/-! ## Computed runs -/

/-- Are the live threads the same, and in the list? -/
def keepsIn (us : List ThreadUid) (k : Kernel) (ev : Event) (k' : Kernel) : Bool :=
  k.threadsIn us && k'.threadsIn us && us.all (fun u => k'.live u = k.live u) && !ev.creates

theorem keepsThreads_of_keepsIn {us : List ThreadUid} (h : keepsIn us k ev k' = true) :
    KeepsThreads k ev k' := by
  simp only [keepsIn, Bool.and_eq_true, Bool.not_eq_true'] at h
  obtain ⟨⟨⟨hin, hin'⟩, hsame⟩, hcreates⟩ := h
  refine ⟨hcreates, fun u => ?_⟩
  by_cases hu : u ∈ us
  · exact of_decide_eq_true (List.all_eq_true.mp hsame u hu)
  · rw [Bool.eq_false_iff.mpr fun hlive => hu (Kernel.mem_of_threadsIn hin' hlive),
      Bool.eq_false_iff.mpr fun hlive => hu (Kernel.mem_of_threadsIn hin hlive)]

/-- Both threads have had a message and have an empty queue; the second one waits for the
first. -/
def secondWaits : List Event :=
  [.ksend { pid := 2 } 1 noArgs, .ksend { pid := 3 } 1 noArgs, callEvent 16 0x1000 0 0,
    callEvent 5 0 0 0, callEvent 16 0x1000 0 0, callEvent 6 2 0 0]

/-- The two threads. -/
def bothThreads : List ThreadUid := [{ pid := 2 }, { pid := 3 }]

/-- Are all queues empty, and do their heads say so? -/
def Kernel.emptyQueues (us : List ThreadUid) (k : Kernel) : Bool :=
  k.threadsIn us && us.all fun u =>
    (k.thread u).msgInfo.count = 0 ∧ (k.thread u).msgInfo.head = noLink

theorem Kernel.Sound.of_emptyQueues {us : List ThreadUid} (hk : k.Sound)
    (h : k.emptyQueues us = true) : k.WellQueued ∧ k.NoLostWakeup := by
  rw [Kernel.emptyQueues, Bool.and_eq_true] at h
  have hempty : ∀ u, k.live u = true →
      (k.thread u).msgInfo.count = 0 ∧ (k.thread u).msgInfo.head = noLink := fun u hlive =>
    of_decide_eq_true (List.all_eq_true.mp h.2 u (Kernel.mem_of_threadsIn h.1 hlive))
  refine ⟨⟨hk.linked, fun u hlive _ => (hempty u hlive).2⟩, fun u hlive _ e he => ?_⟩
  have hcount := ((hk.linked u.pid).queued u.tid ⟨hlive, rfl⟩).count
  rw [show ((k.blocks u.pid).info u.tid).count = 0 from (hempty u hlive).1] at hcount
  rw [Block.queue, List.eq_nil_of_length_eq_zero hcount.symm] at he
  cases he

theorem exists_emptyQueues_of_any {us : List ThreadUid} {ram : Word → BitVec 8}
    {pages : List Word} {p : Kernel → Bool}
    (h : (runSettled us ram pages evs).any (fun k => k.emptyQueues us && p k) = true) :
    ∃ k, k.WellQueued ∧ k.NoLostWakeup ∧ p k = true := by
  obtain ⟨-, k, -, -, hk, hp⟩ := exists_settled_of_any h
  rw [Bool.and_eq_true] at hp
  obtain ⟨hwell, hlost⟩ := hk.of_emptyQueues hp.1
  exact ⟨k, hwell, hlost, hp.2⟩

/-! ## Wake-ups -/

/-- No run that keeps the threads and spares the kernel's memory loses a wake-up. -/
theorem noLostWakeup_of_run (hk : k₀.WellQueued) (hlost : k₀.NoLostWakeup)
    (hrun : Exposed.Run KeepsThreads k₀ evs k) : k.NoLostWakeup := by
  have hboth : k.WellQueued ∧ k.NoLostWakeup :=
    hrun.steps.invariant (I := fun k => k.WellQueued ∧ k.NoLostWakeup)
      (fun _ _ _ hs hstep hkeep =>
        ⟨hs.1.step hstep hkeep, (hs.1.follows hs.2 hstep hkeep).1⟩) ⟨hk, hlost⟩
  exact hboth.2

/-- The kernel sends the waiting thread a message that it does not wait for. -/
theorem ksend_keeps_noLostWakeup :
    ∃ k₀ k, k₀.WellQueued ∧ k₀.NoLostWakeup ∧
      Exposed.Run KeepsThreads k₀ [.ksend { pid := 3 } 7 #v[0, 0, 0]] k ∧
      (k.thread { pid := 3 }).state = .waiting ∧
      ((k.blocks 3).queue 0).map (·.code) = [7] ∧ k.NoLostWakeup := by
  have hany : (runSettled bothThreads (fun _ => 0) [0x2000, 0x3000] secondWaits).any (fun k =>
      k.emptyQueues bothThreads &&
        (runEvents (checked Kernel.step (keepsIn bothThreads)) k [.ksend { pid := 3 } 7 #v[0, 0, 0]]).any
          fun k' => (k'.thread { pid := 3 }).state = .waiting ∧
            ((k'.blocks 3).queue 0).map (·.code) = [7]) = true := by decide +kernel
  obtain ⟨k₀, hwell, hlost, hp⟩ := exists_emptyQueues_of_any hany
  obtain ⟨k, hrun, hp⟩ := exists_steps_of_any (fun _ _ _ => keepsThreads_of_keepsIn) hp
  obtain ⟨hstate, hqueue⟩ := of_decide_eq_true hp
  have hspared := Exposed.Run.of_harmless hrun (by decide)
  exact ⟨k₀, k, hwell, hlost, hspared, hstate, hqueue, noLostWakeup_of_run hwell hlost hspared⟩

/-- The second thread waits for the first and has a message of the kernel's. The first receives a
message of the kernel's into `wait_for` of the second, which from then on waits for what it
already has. -/
theorem recv_loses_wakeup :
    ∃ k₀ k, k₀.WellQueued ∧ k₀.NoLostWakeup ∧
      Steps Exposed.step KeepsThreads k₀
        [.ksend { pid := 3 } 7 #v[0, 0, 0], .ksend { pid := 2 } 0 #v[0, 0, 0],
          callEvent 14 0xC4021158 0 0] k ∧
      k.live { pid := 3 } = true ∧ (k.thread { pid := 3 }).state = .waiting ∧
      (k.thread { pid := 3 }).syscallInfo.waitFor = .kernel ∧
      ((k.blocks 3).queue 0).map (·.sender) = [.kernel] ∧ ¬k.NoLostWakeup := by
  have hany : (runSettled bothThreads (fun _ => 0) [0x2000, 0x3000] secondWaits).any (fun k =>
      k.emptyQueues bothThreads &&
        (runEvents (checked Exposed.step (keepsIn bothThreads)) k
          [.ksend { pid := 3 } 7 #v[0, 0, 0], .ksend { pid := 2 } 0 #v[0, 0, 0],
            callEvent 14 0xC4021158 0 0]).any
          fun k' => k'.live { pid := 3 } = true ∧ (k'.thread { pid := 3 }).state = .waiting ∧
            (k'.thread { pid := 3 }).syscallInfo.waitFor = .kernel ∧
            ((k'.blocks 3).queue 0).map (·.sender) = [.kernel]) = true := by decide +kernel
  obtain ⟨k₀, hwell, hlost, hp⟩ := exists_emptyQueues_of_any hany
  obtain ⟨k, hrun, hp⟩ := exists_steps_of_any (fun _ _ _ => keepsThreads_of_keepsIn) hp
  obtain ⟨hlive, hstate, hwait, hqueue⟩ := of_decide_eq_true hp
  refine ⟨k₀, k, hwell, hlost, hrun, hlive, hstate, hwait, hqueue, fun hnone => ?_⟩
  obtain ⟨e, he, hsender⟩ := List.mem_map.mp (hqueue ▸ List.mem_singleton_self IpcPort.kernel)
  have hmatch := hnone _ hlive hstate e he
  rw [hwait, hsender] at hmatch
  exact absurd hmatch (by decide)

/-! ## Order -/

/-- Some event of the run is a `send` by `u` of the message that its memory holds. -/
def SendsDuring (k₀ : Kernel) (evs : List Event) (u : ThreadUid) (info : Msg) : Prop :=
  ∃ evs₁ ev evs₂ k₁, evs = evs₁ ++ ev :: evs₂ ∧ Steps Kernel.step KeepsThreads k₀ evs₁ k₁ ∧
    u = k₁.schedulerCurr ∧ ∃ src, ev.call = some (.send src) ∧ info = k₁.msgAt src

theorem SendsDuring.cons {u : ThreadUid} {info : Msg} (hstep : k₀.step ev = some k)
    (hkeep : KeepsThreads k₀ ev k) (h : SendsDuring k evs u info) :
    SendsDuring k₀ (ev :: evs) u info := by
  obtain ⟨evs₁, ev', evs₂, k₁, rfl, hrun, hcaller⟩ := h
  exact ⟨ev :: evs₁, ev', evs₂, k₁, rfl, .cons hstep hkeep hrun, hcaller⟩

end Horizon
