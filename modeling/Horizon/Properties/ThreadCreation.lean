import Horizon.System.Exposed
import Horizon.System.RegistryTrace

/-!
# Horizon — what a new thread does to the others

The control blocks of the threads of a process lie behind each other, up to 30 in a page.
`thread_new` has its block mapped by `virtual_alloc`, which clears memory from the start of the
request to the end of the page. So a thread in a slot that was freed takes the place of its
predecessor and damages the live threads behind it.

If all slots are in use, `bitmap_find_and_set` finds a bit behind the bitmap. `threadNew` does not
follow what is written there, but the TID that is returned is known, and it is one in use.
-/

namespace Horizon

open StateError

variable {k k' : Kernel} {uid v : ThreadUid} {pid : Pid} {tid : Tid} {entry : Word}

theorem Thread.wipe_zero (t : Thread) : t.wipe 0 = t := rfl

theorem Thread.tid_wipe {n : Nat} (h : n ≠ 0) (t : Thread) : (t.wipe n).tid = 0 :=
  if_pos (Nat.pos_of_ne_zero h)

theorem threadNew_thread (h : threadNew pid entry k = .ok uid k') (hv : v ≠ uid) :
    k'.thread v = (k.thread v).wipe (wiped uid v) := by
  obtain ⟨index, hindex, rfl, -, -, hmem⟩ := threadNew_eq_ok h
  rw [hmem.eq]
  show (Kernel.setBlock ..).thread v = _
  rw [Kernel.thread, Kernel.thread, Kernel.blocks_setBlock, wiped]
  by_cases hp : v.pid = pid
  · have htid : v.tid ≠ BitVec.ofNat 6 index := fun ht => hv (ThreadUid.ext hp ht)
    rw [if_pos hp, Block.threads_addThread hindex htid, hp]
    simp only [true_and, BitVec.lt_def, toNat_ofNat_tid hindex]
    split
    · rfl
    · rw [Thread.wipe_zero]
  · rw [if_neg hp, if_neg fun hw => hp hw.1, Thread.wipe_zero]

/-- No live thread has its control block behind that of the next thread, in the page in which
this ends. -/
def Kernel.NoneBehind (k : Kernel) (pid : Pid) : Prop :=
  ∀ tid, k.nextTid pid = some tid → ∀ v, k.live v = true → wiped { pid, tid } v = 0

theorem bitmapTest_threadWords {i : Nat} (hi : i < processThreadMax) :
    bitmapTest (k.blocks pid).process.threadWords i =
      bitmapTest (k.blocks pid).process.threadInfo.bitmap i := by
  refine bitmapTest_of_agree (fun j hj => if_pos hj) ?_
  simp only [processThreadMax, bitmapLength, bitmapBits] at *
  omega

/-- The TID that `thread_new` returns is a new one just if there was one left. -/
theorem Kernel.live_nextTid (hp : k.liveProcess pid = true) (hnext : k.nextTid pid = some tid) :
    k.live { pid, tid } = false ↔ k.HasRoom pid := by
  rw [live, hp, Bool.true_and]
  refine ⟨fun hfree => ⟨tid, hfree⟩, ?_⟩
  rintro ⟨t, ht⟩
  obtain ⟨index, hfound, rfl⟩ := Option.map_eq_some_iff.mp hnext
  -- The search has passed no bit that is clear.
  have hle : index ≤ t.toNat := by
    by_contra hlt
    have hset := bitmapFindAndSet_least (Prod.ext hfound rfl) (Nat.lt_of_not_le hlt)
    rw [bitmapTest_threadWords t.isLt] at hset
    rw [Block.live, hset] at ht
    cases ht
  have hindex : index < processThreadMax := hle.trans_lt t.isLt
  rw [Block.live, toNat_ofNat_tid hindex, ← bitmapTest_threadWords hindex]
  exact (bitmapFindAndSet_eq_some (Prod.ext hfound rfl)).1

/-- `thread_new` returns a TID that was not in use just if the process has a slot left. Then it
leaves the control blocks of the live threads alone if none of them lies behind the new one in its
page, and only then, as long as the threads still carry their TIDs. -/
theorem threadNew_spares_others (entry : Word) (hp : k.liveProcess pid = true)
    (hnext : k.nextTid pid = some tid) :
    (k.live { pid, tid } = false ↔ k.HasRoom pid) ∧
    ∀ uid k', threadNew pid entry k = .ok uid k' → uid = { pid, tid } ∧ k'.live uid = true ∧
      (k.NoneBehind pid → ∀ v, k.live v = true → k'.thread v = k.thread v) ∧
      ((∀ v, k.live v = true → (k.thread v).tid = v.tid) →
        (∀ v, k.live v = true → k'.thread v = k.thread v) → k.NoneBehind pid) := by
  refine ⟨Kernel.live_nextTid hp hnext, fun uid k' h => ?_⟩
  obtain ⟨rfl, -, hvalid, hregistry⟩ := threadNew_registry h
  obtain rfl : uid.tid = tid := Option.some.inj ((nextTid_of_ok h).symm.trans hnext)
  have hfree : k.live uid = false := by
    rw [← Kernel.registry_thread_isSome, hvalid.2]
    rfl
  have hlive : k'.live uid = true := by
    rw [← Kernel.registry_thread_isSome, hregistry]
    simp [Registry.apply]
  have hne : ∀ v, k.live v = true → v ≠ uid := by
    rintro v hv rfl
    rw [hfree] at hv
    cases hv
  refine ⟨rfl, hlive, fun hnone v hv => ?_, fun hown hsame tid htid v hv => ?_⟩
  · rw [threadNew_thread h (hne v hv), hnone uid.tid hnext v hv, Thread.wipe_zero]
  · obtain rfl : uid.tid = tid := Option.some.inj (hnext.symm.trans htid)
    by_contra hwiped
    -- A block that is cleared loses its TID, which is not zero behind another block.
    have hzero : v.tid = 0 := by
      rw [← hown v hv, ← hsame v hv, threadNew_thread h (hne v hv), Thread.tid_wipe hwiped]
    have hbehind : uid.tid < v.tid := by
      by_contra hnot
      exact hwiped (if_neg fun hw => hnot hw.2)
    rw [hzero] at hbehind
    exact BitVec.not_lt_zero hbehind

/-- The result of `thread_new`. -/
def Kernel.withThread (k : Kernel) (pid : Pid) (entry : Word) : Option (ThreadUid × Kernel) :=
  match threadNew pid entry k with
  | .ok uid k' => some (uid, k')
  | .error _ _ => none

theorem threadNew_of_withThread (h : k.withThread pid entry = some (uid, k')) :
    threadNew pid entry k = .ok uid k' := by
  unfold Kernel.withThread at h
  split at h
  · next hnew =>
    cases h
    exact hnew
  · cases h

/-- `NoneBehind`, computed. -/
def Kernel.noneBehind (k : Kernel) (pid : Pid) : Bool :=
  (k.nextTid pid).all fun tid => (List.range processThreadMax).all fun j =>
    !k.live { pid, tid := BitVec.ofNat 6 j } ||
      wiped { pid, tid } { pid, tid := BitVec.ofNat 6 j } = 0

theorem Kernel.noneBehind_spec (h : k.noneBehind pid = true) : k.NoneBehind pid := by
  intro tid htid v hv
  by_cases hp : v.pid = pid
  · subst hp
    rw [noneBehind, htid, Option.all_some, List.all_eq_true] at h
    have hall := h v.tid.toNat (List.mem_range.mpr v.tid.isLt)
    rw [BitVec.ofNat_toNat, BitVec.setWidth_eq, hv] at hall
    exact of_decide_eq_true hall
  · exact if_neg fun hw => hp hw.1

/-- The first process gets a second thread. -/
theorem second_thread_spares_first : ∃ k₀ uid k', Booted k₀ ∧ threadNew 2 0x1000 k₀ = .ok uid k' ∧
    k₀.live { pid := 2, tid := 0 } = true ∧ k₀.live { pid := 2, tid := 1 } = false ∧
    k'.live uid = true ∧ k'.thread { pid := 2, tid := 0 } = k₀.thread { pid := 2, tid := 0 } := by
  have hany : (runPages (fun _ => 0) [0x2000] []).any (fun k =>
      k.noneBehind 2 && decide (k.liveProcess 2 = true ∧ k.live { pid := 2, tid := 0 } = true ∧
        k.nextTid 2 = some 1 ∧ (k.blocks 2).live 1 = false) && (k.withThread 2 0x1000).isSome) =
      true := by decide +kernel
  obtain ⟨k₀, _, hboot, hrun, hp⟩ := exists_run_of_any hany
  cases hrun
  simp only [Bool.and_eq_true, decide_eq_true_eq, Option.isSome_iff_exists] at hp
  obtain ⟨⟨hnone, hproc, hfirst, hnext, hroom⟩, ⟨uid, k'⟩, hnew⟩ := hp
  have hnew := threadNew_of_withThread hnew
  obtain ⟨hfree, hnew'⟩ := threadNew_spares_others 0x1000 hproc hnext
  obtain ⟨-, hlive, hspares, -⟩ := hnew' uid k' hnew
  exact ⟨k₀, uid, k', hboot, hnew, hfirst, hfree.mpr ⟨1, hroom⟩, hlive,
    hspares (Kernel.noneBehind_spec hnone) _ hfirst⟩

/-- Two more threads are dispatched and the first of them dies. The thread that takes its slot
clears the control block of the second. -/
theorem new_thread_damages_another : ∃ k₀ k k', Booted k₀ ∧
    runEvents Kernel.step k₀ [callEvent 2 0x1000 0 0, callEvent 2 0x1000 0 0, callEvent 5 0 0 0,
      .pagefault {}] = some k ∧
    threadNew 2 0x1000 k = .ok { pid := 2, tid := 1 } k' ∧ k.live { pid := 2, tid := 2 } = true ∧
    (k.thread { pid := 2, tid := 2 }).tid = 2 ∧ (k'.thread { pid := 2, tid := 2 }).tid = 0 := by
  have hany : (runPages (fun _ => 0) [0x2000] [callEvent 2 0x1000 0 0, callEvent 2 0x1000 0 0,
      callEvent 5 0 0 0, .pagefault {}]).any (fun k => (k.withThread 2 0x1000).any fun res =>
        decide (res.1 = { pid := 2, tid := 1 } ∧ k.live { pid := 2, tid := 2 } = true ∧
          (k.thread { pid := 2, tid := 2 }).tid = 2 ∧
          (res.2.thread { pid := 2, tid := 2 }).tid = 0)) = true := by decide +kernel
  obtain ⟨k₀, k, hboot, hrun, hp⟩ := exists_run_of_any hany
  obtain ⟨⟨uid, k'⟩, hnew, hp⟩ := (Option.any_eq_true _ _).mp hp
  obtain ⟨rfl, hdamage⟩ := of_decide_eq_true hp
  exact ⟨k₀, k, k', hboot, hrun, threadNew_of_withThread hnew, hdamage⟩

end Horizon
