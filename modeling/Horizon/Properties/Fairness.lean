import Horizon.Properties.RunQueue

/-!
# Horizon — every runnable thread gets its turn

The number of threads ahead of a thread in the ring, read off the links, is its distance in the
queue the ring refines. It never grows while the thread waits, and `Queue.wait` bounds the timer
ticks until the thread runs.
-/

namespace Horizon

open StateError LinkedRing RoundRobin

variable {k k' : Kernel} {uid : ThreadUid} {l : List ThreadUid} {d : ℕ}

/-- A thread that is in the ring. -/
def Kernel.Runnable (k : Kernel) (uid : ThreadUid) : Prop :=
  k.live uid = true ∧ (k.thread uid).state = .active

/-- Following `next` from the running thread, `uid` is met after `d` steps. -/
def Kernel.Ahead (k : Kernel) (d : ℕ) (uid : ThreadUid) : Prop :=
  k.next^[d] k.activeThread = uid ∧ ∀ n < d, k.next^[n] k.activeThread ≠ uid

instance : Decidable (k.Runnable uid) := inferInstanceAs (Decidable (_ ∧ _))

instance : Decidable (k.Ahead d uid) := inferInstanceAs (Decidable (_ ∧ ∀ n < d, _))

theorem Kernel.Scheduled.getElem (hk : k.Scheduled l) {n : ℕ} (hn : n < l.length) :
    k.next^[n] k.activeThread = l[n] := by
  cases l with
  | nil => cases hn
  | cons a l =>
    rw [hk.activeThread_cons]
    have hiterate := hk.ring.iterate n
    rw [List.head?_rotate hn, List.getElem?_eq_getElem hn, Option.some.injEq] at hiterate
    exact hiterate.symm

theorem Kernel.Scheduled.ahead_idxOf (hk : k.Scheduled l) (hu : uid ∈ l) :
    k.Ahead (l.idxOf uid) uid := by
  have hlt := List.idxOf_lt_length_of_mem hu
  refine ⟨(hk.getElem hlt).trans (List.getElem_idxOf hlt), fun n hn heq => ?_⟩
  rw [hk.getElem (hn.trans hlt)] at heq
  have hidx := hk.ring.nodup.idxOf_getElem n (hn.trans hlt)
  rw [heq] at hidx
  exact hn.ne' hidx

theorem Kernel.Ahead.unique {d' : ℕ} (h : k.Ahead d uid) (h' : k.Ahead d' uid) : d = d' :=
  Nat.le_antisymm (Nat.le_of_not_lt fun hlt => h.2 d' hlt h'.1)
    (Nat.le_of_not_lt fun hlt => h'.2 d hlt h.1)

theorem Kernel.Scheduled.ahead_iff (hk : k.Scheduled l) (hu : uid ∈ l) :
    k.Ahead d uid ↔ (k.queue l).distance uid = d :=
  ⟨(hk.ahead_idxOf hu).unique, fun h => h ▸ hk.ahead_idxOf hu⟩

theorem Kernel.Ahead.ne_of_pos (h : k.Ahead d uid) (hd : 0 < d) : k.activeThread ≠ uid := h.2 0 hd

/-- Does the operation move the running thread to the end of the ring? -/
def SchedOp.Switches (k : Kernel) (op : SchedOp) : Prop :=
  op = .next ∨ op = .tick ∧ k.slice k.activeThread = 1

theorem Kernel.Scheduled.waiting (hk : k.Scheduled l) (hu : uid ∈ l)
    (hne : k.activeThread ≠ uid) : ∃ a l', l = a :: l' ∧ a ≠ uid ∧ uid ∈ l' := by
  cases l with
  | nil => cases hu
  | cons a l' =>
    rw [hk.activeThread_cons] at hne
    exact ⟨a, l', rfl, hne, (List.mem_cons.mp hu).resolve_left hne.symm⟩

/-- One operation, seen from a thread that waits and stays in the ring. -/
theorem Kernel.InTurn.closer {op : SchedOp} (hk : k.InTurn l) (hu : uid ∈ l)
    (hne : k.activeThread ≠ uid) (hstep : schedStep k op = some k') (hu' : k'.Runnable uid) :
    ∃ l', k'.InTurn l' ∧ uid ∈ l' ∧
      (k'.queue l').distance uid ≤ (k.queue l).distance uid ∧
      (op.Switches k → (k'.queue l').distance uid + 1 = (k.queue l).distance uid) ∧
      (k'.queue l').wait schedulerTimeslice.toNat uid + op.effect.isTick.toNat ≤
        (k.queue l).wait schedulerTimeslice.toNat uid := by
  obtain ⟨⟨hk', hqueue⟩, hallows⟩ := hk.1.step hk.2 hstep
  have hmem := (hk'.mem uid).mpr hu'
  refine ⟨_, hk.step hstep, hmem, ?_⟩
  obtain ⟨a, l, rfl, hau, hul⟩ := hk.1.waiting hu hne
  rw [hqueue]
  refine ⟨Queue.distance_apply hau hul hmem, ?_,
    Queue.wait_apply (by decide) hk.2 hallows hau hul hmem⟩
  rintro (rfl | ⟨rfl, hslice⟩)
  · exact Queue.distance_turn hau hul
  · have hlast : (k.slice a).toNat = 1 := by
      rw [← hk.1.activeThread_cons, hslice]
      rfl
    have htick : (k.queue (a :: l)).apply schedulerTimeslice.toNat SchedOp.tick.effect =
        (k.queue (a :: l)).turn schedulerTimeslice.toNat := Queue.tick_last hlast
    rw [htick]
    exact Queue.distance_turn hau hul

/-- A run in which a thread stays runnable. -/
abbrev Staying (uid : ThreadUid) : Kernel → List SchedOp → Kernel → Prop :=
  Steps schedStep fun _ _ k' => k'.Runnable uid

/-- A thread that stays runnable runs before `wait` is used up. -/
theorem Kernel.InTurn.reaches {ops : List SchedOp} (hk : k.InTurn l) (hu : uid ∈ l)
    (hrun : Staying uid k ops k')
    (hticks : (k.queue l).wait schedulerTimeslice.toNat uid ≤ ops.countP (·.effect.isTick)) :
    ∃ before after k₁, ops = before ++ after ∧ Staying uid k before k₁ ∧ k₁.activeThread = uid ∧
      before.countP (·.effect.isTick) ≤ (k.queue l).wait schedulerTimeslice.toNat uid := by
  refine Steps.reaches (I := fun k n => ∃ l, k.InTurn l ∧ uid ∈ l ∧
    (k.queue l).wait schedulerTimeslice.toNat uid = n) ?_ ?_ hrun ⟨l, hk, hu, rfl⟩ hticks
  · rintro k _ op k' ⟨l, hk, hu, rfl⟩ hstep hstays
    by_cases hne : k.activeThread = uid
    · exact Or.inl hne
    · obtain ⟨l', hk', hu', -, -, hwait⟩ := hk.closer hu hne hstep hstays
      exact Or.inr ⟨_, ⟨l', hk', hu', rfl⟩, hwait⟩
  · rintro k ⟨l, hk, hu, hzero⟩
    rw [hk.1.active]
    exact congrArg (Option.getD · 0) (Queue.head_of_wait_eq_zero hk.2 hu hzero)

/-- Bounded bypass, in every state the scheduler's operations lead to. -/
theorem bounded_bypass {k₀ : Kernel} {ops : List SchedOp} (hidle : k₀.Scheduled [])
    (hrun : Steps schedStep (fun _ _ _ => True) k₀ ops k) :
    (∀ u, k.Runnable u → 1 ≤ k.slice u ∧ k.slice u ≤ schedulerTimeslice) ∧
    ∀ u d, k.Runnable u → k.Ahead d u →
      (∀ op k', 0 < d → schedStep k op = some k' → k'.Runnable u →
        ∃ d', k'.Ahead d' u ∧ d' ≤ d ∧ (op.Switches k → d' + 1 = d)) ∧
      ∀ later k', Staying u k later k' →
        schedulerTimeslice.toNat * d ≤ later.countP (·.effect.isTick) →
        ∃ before after k₁, later = before ++ after ∧ Staying u k before k₁ ∧
          k₁.activeThread = u ∧
          before.countP (·.effect.isTick) ≤ schedulerTimeslice.toNat * d := by
  obtain ⟨l, hk⟩ := hidle.inTurn_of_run hrun
  refine ⟨fun u hu => ?_, fun u d hu hahead => ?_⟩
  · obtain ⟨hlow, hhigh⟩ := hk.2.slice u ((hk.1.mem u).mpr hu)
    exact ⟨BitVec.le_def.mpr hlow, BitVec.le_def.mpr hhigh⟩
  · have hmem := (hk.1.mem u).mpr hu
    have hdistance := (hk.1.ahead_iff hmem).mp hahead
    constructor
    · intro op k' hd hstep hu'
      obtain ⟨l', hk', hmem', hle, hswitch, -⟩ := hk.closer hmem (hahead.ne_of_pos hd) hstep hu'
      rw [hdistance] at hle hswitch
      exact ⟨_, (hk'.1.ahead_iff hmem').mpr rfl, hle, hswitch⟩
    · intro later k' hlater hticks
      have hwait : (k.queue l).wait schedulerTimeslice.toNat u ≤ schedulerTimeslice.toNat * d := by
        rw [← hdistance]
        exact Queue.wait_le hk.2
      obtain ⟨before, after, k₁, hsplit, hbefore, hactive, hcount⟩ :=
        hk.reaches hmem hlater (hwait.trans hticks)
      exact ⟨before, after, k₁, hsplit, hbefore, hactive, hcount.trans hwait⟩

/-- The last of three threads runs after at most two quanta. -/
theorem third_thread_runs :
    ∃ k k₁ before, Steps schedStep (fun _ _ _ => True) threeThreads
        [.add ⟨2, 0⟩, .add ⟨2, 1⟩, .add ⟨2, 2⟩] k ∧ k.Ahead 2 ⟨2, 2⟩ ∧
      Staying ⟨2, 2⟩ k before k₁ ∧ k₁.activeThread = ⟨2, 2⟩ ∧
      before.countP (·.effect.isTick) ≤ 10 := by
  have hany : (runEvents (checked schedStep fun _ _ _ => true) threeThreads
      [.add ⟨2, 0⟩, .add ⟨2, 1⟩, .add ⟨2, 2⟩]).any (fun k =>
        decide (k.Runnable ⟨2, 2⟩) && decide (k.Ahead 2 ⟨2, 2⟩) &&
        (runEvents (checked schedStep fun _ _ k' => k'.Runnable ⟨2, 2⟩) k
          (List.replicate 10 .tick)).any fun _ => true) = true := by decide +kernel
  obtain ⟨k, hrun, hk⟩ := exists_steps_of_any (P := fun _ _ _ => True)
    (fun _ _ _ _ => trivial) hany
  simp only [Bool.and_eq_true, decide_eq_true_eq] at hk
  obtain ⟨⟨hrunnable, hahead⟩, hlater⟩ := hk
  obtain ⟨k', hstays, -⟩ := exists_steps_of_any (P := fun _ _ k' => Kernel.Runnable k' ⟨2, 2⟩)
    (fun _ _ _ => of_decide_eq_true) hlater
  obtain ⟨before, after, k₁, -, hbefore, hactive, hcount⟩ :=
    ((bounded_bypass threeThreads_scheduled hrun).2 _ 2 hrunnable hahead).2 _ _ hstays (by decide)
  exact ⟨k, k₁, before, hrun, hahead, hbefore, hactive, hcount⟩

end Horizon
