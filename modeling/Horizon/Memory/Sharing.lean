import Horizon.Memory.Allocation

/-!
# Horizon — sharing the pages of a range (`virtual_share`)

What the loop of `virtual_share` does to the pages of all address spaces. A page of the target that
was not mapped gets the frame of the corresponding page of the source, if that has one
(`Vm.ShareState`). Where the two ranges overlap in one address space, the source page of a round can
be the target page of an earlier one. `rounds_copy_iff` says when the loop is a copy all the same.
-/

namespace Horizon

open StateError FramePool Vm

variable {vm vm' v : Vm} {dirs : Pid → Option Frame} {p q r : Pid} {d e g : Frame}
  {flags : PagingFlags} {m n s : ℕ}

/-! ## Pages of both halves -/

theorem dirIndex_pageNo_lt (hn : n < 0xC0000) : dirIndex (pageNo n) < userTop := by
  rw [BitVec.lt_def, toNat_userTop, toNat_dirIndex_pageNo (by omega)]
  omega

theorem userTop_le_dirIndex_pageNo (hle : 0xC0000 ≤ n) (hn : n < recursivePage) :
    userTop ≤ dirIndex (pageNo n) := by
  unfold recursivePage at hn
  rw [BitVec.le_def, toNat_userTop, toNat_dirIndex_pageNo (by omega)]
  omega

theorem pageFrame_slot (hd : dirs p = some d) (hn : n < 0xC0000) :
    vm.pageFrame d n = (vm.slot dirs (slotOf p (pageNo n))).map (·.frame) :=
  pagingMappingGet_slot hd (dirIndex_pageNo_lt hn)

theorem slotOf_pageNo (hm : m < recursivePage) (hn : n < recursivePage) :
    slotOf q (pageNo m) = slotOf p (pageNo n) ↔ q = p ∧ m = n := by
  simp only [slotOf, Prod.mk.injEq, pageNo_indices hn hm]

theorem Vm.Within.pageFrame_upper {A : Set Pid} (h : Within dirs A vm vm') (ht : vm.Tidy dirs)
    (hd : dirs p = some d) (hle : 0xC0000 ≤ n) (hn : n < recursivePage) :
    vm'.pageFrame d n = vm.pageFrame d n := by
  have htop := userTop_le_dirIndex_pageNo hle hn
  have hdir := h.upper p d _ hd htop
  rw [pageFrame_eq_lookup, pageFrame_eq_lookup, Vm.lookup, Vm.lookup, TwoLevel.lookup,
    TwoLevel.lookup, hdir]
  cases htable : (vm.pages d (dirIndex (pageNo n))).target with
  | none => rfl
  | some t =>
    have hholder := ht.holder_target hd (dirIndex_pageNo_mem hn) htable
    rw [if_neg (BitVec.not_lt.mpr htop)] at hholder
    have hsame : vm'.pages t = vm.pages t := h.pages (.kernelTable _) t not_false hholder
    rw [Option.bind_some, Option.bind_some, hsame]

/-! ## Rounds

`src` and `dst` are the pages of source and target before the loop, and `fin` those of the target
after it. Round `i` keeps a page that is there. If `back i` is `some j`, then its source page is the
target page of round `j`. -/

section

variable {α : Type} {src dst fin : ℕ → Option α} {back : ℕ → Option ℕ} {N M : ℕ}

/-- A loop of `N` rounds, whose first `M` target pages were not mapped, copies these and leaves the
others alone, unless it finds a page to map behind them or comes upon a page that it has mapped
itself. -/
theorem rounds_copy_iff (hdst : ∀ i < M, dst i = none)
    (hback : ∀ i j, back i = some j → j < i ∧ src i = dst j)
    (hfin : ∀ i < N, fin i = (dst i).or ((back i).elim (src i) fin)) :
    (∀ i < N, fin i = if i < M then src i else dst i) ↔
      (∀ i < N, M ≤ i → (src i).isSome = true → (dst i).isSome = true) ∧
      ∀ i < N, ∀ j < M, back i = some j → (src j).isSome = true → (dst i).isSome = true := by
  refine ⟨fun hall => ⟨fun i hi hM hsrc => ?_, fun i hi j hj hb hsrc => ?_⟩, fun hok i => ?_⟩
  · have hround := hall i hi
    rw [if_neg (Nat.not_lt.mpr hM), hfin i hi] at hround
    cases hb : back i with
    | none =>
      rw [← hround, hb, Option.elim_none, Option.isSome_or, hsrc, Bool.or_true]
    | some j =>
      -- The page was mapped before the loop, so the earlier round has left it alone.
      obtain ⟨hji, hsame⟩ := hback i j hb
      have hM' : ¬j < M := fun hj => by
        rw [hsame, hdst j hj] at hsrc
        cases hsrc
      rw [← hround, hb, Option.elim_some, hall j (hji.trans hi), if_neg hM', ← hsame,
        Option.isSome_or, hsrc, Bool.or_true]
  · obtain ⟨hji, hsame⟩ := hback i j hb
    have hround := hall i hi
    rw [hfin i hi, hb, Option.elim_some, hall j (hji.trans hi), if_pos hj] at hround
    have hsome : ((dst i).or (src j)).isSome = true := by
      rw [Option.isSome_or, hsrc, Bool.or_true]
    rw [hround] at hsome
    split at hsome
    · rw [hsame, hdst j hj] at hsome
      cases hsome
    · exact hsome
  · obtain ⟨hcovers, hapart⟩ := hok
    have hkeeps : ∀ {a b : Option α}, (b.isSome = true → a.isSome = true) → a.or b = a := by
      rintro (_ | _) (_ | _) h <;> first | rfl | cases h rfl
    induction i using Nat.strong_induction_on with
    | _ i ih =>
      intro hi
      rw [hfin i hi]
      -- What the round finds is what it would have found before the loop, or does not matter.
      have hfinds : (dst i).or ((back i).elim (src i) fin) = (dst i).or (src i) := by
        cases hb : back i with
        | none => rw [Option.elim_none]
        | some j =>
          obtain ⟨hji, hsame⟩ := hback i j hb
          rw [Option.elim_some, ih j hji (hji.trans hi)]
          split
          · next hj => rw [hkeeps (hapart i hi j hj hb), hsame, hdst j hj, Option.or_none]
          · rw [hsame]
      rw [hfinds]
      split
      · next hM => rw [hdst i hM, Option.none_or]
      · next hM => exact hkeeps (hcovers i hi (Nat.le_of_not_lt hM))

end

/-! ## The loop -/

/-- One round, for page `s` of the source and page `n` of the target. -/
theorem sharePage_pageFrame (htidy : vm.Tidy dirs) (hd : dirs p = some d) (he : dirs q = some e)
    (hs : s < 0xC0000) (hn : n < 0xC0000)
    (h : sharePage d e flags (pageNo s) (pageNo n) vm = .ok () vm') :
    vm'.Tidy dirs ∧ ∀ r g m, dirs r = some g → m < recursivePage → vm'.pageFrame g m =
      if r = p ∧ m = n then (vm.pageFrame d n).or (vm.pageFrame e s) else vm.pageFrame g m := by
  have hlt : n < recursivePage := hn.trans (by decide)
  rcases sharePage_pool htidy hd he (dirIndex_pageNo_lt hs) (dirIndex_pageNo_lt hn) h with
    ⟨rfl, hskip⟩ | ⟨htidy', hwithin, ⟨f, w⟩, table, hm, hslot, -, hpool⟩
  · refine ⟨htidy, fun r g m hg hm => ?_⟩
    split
    · next heq =>
      obtain ⟨rfl, rfl⟩ := heq
      obtain rfl := Option.some.inj (hd.symm.trans hg)
      rcases hskip with hnone | hsome
      · rw [pageFrame_slot he hs, hnone, Option.map_none, Option.or_none]
      · rw [pageFrame_slot hd hn, Option.or_of_isSome (by rw [Option.isSome_map, hsome])]
    · rfl
  · refine ⟨htidy', fun r g m hg hlt' => ?_⟩
    have hmap : vm'.slot dirs = Function.update (vm.slot dirs) (slotOf p (pageNo n))
        (some ⟨f, flags.write⟩) := by
      show (vm'.pool dirs).map = _
      rw [hpool, Pool.apply, Pool.put, Pool.map_pin, Pool.map_retain]
      rfl
    by_cases hlow : m < 0xC0000
    · rw [pageFrame_slot hg hlow, hmap, Function.update_apply]
      simp only [slotOf_pageNo hlt' hlt]
      split
      · rw [pageFrame_slot hd hn, pageFrame_slot he hs, hslot, hm]
        rfl
      · rw [pageFrame_slot hg hlow]
    · have hne : ¬(r = p ∧ m = n) := fun heq => hlow (heq.2 ▸ hn)
      rw [if_neg hne, hwithin.pageFrame_upper htidy hg (Nat.le_of_not_lt hlow) hlt']

/-- The round, if any, that has mapped the source page of round `i`. -/
def earlierRound (p q : Pid) (s t i : ℕ) : Option ℕ :=
  if q = p ∧ t ≤ s + i ∧ s < t then some (s + i - t) else none

/-- It has mapped the page that this round reads, in the same address space. -/
theorem earlierRound_eq_some {s t i j : ℕ} :
    earlierRound p q s t i = some j ↔ q = p ∧ s + i = t + j ∧ j < i := by
  rw [earlierRound, Option.ite_none_right_eq_some, Option.some_inj, and_assoc]
  refine and_congr_right fun _ => ?_
  omega

/-- The pages of all processes after some rounds, from page `s` of the source, which is process `q`,
and page `t` of the target on. -/
structure Vm.ShareState (vm : Vm) (dirs : Pid → Option Frame) (p q : Pid) (d e : Frame) (s t n : ℕ)
    (v : Vm) : Prop where
  tidy : v.Tidy dirs
  arrived : ∀ i < n, v.pageFrame d (t + i) = (vm.pageFrame d (t + i)).or
    ((earlierRound p q s t i).elim (vm.pageFrame e (s + i)) fun j => v.pageFrame d (t + j))
  others : ∀ r g m, dirs r = some g → m < recursivePage → (r = p → ∀ i < n, m ≠ t + i) →
    v.pageFrame g m = vm.pageFrame g m

theorem Vm.ShareState.succ {t : ℕ} (h : vm.ShareState dirs p q d e s t n v) (hd : dirs p = some d)
    (he : dirs q = some e) (hs : s + n < 0xC0000) (ht : t + n < 0xC0000)
    (hround : sharePage d e flags (pageNo (s + n)) (pageNo (t + n)) v = .ok () vm') :
    vm.ShareState dirs p q d e s t (n + 1) vm' := by
  obtain ⟨htidy, hframe⟩ := sharePage_pageFrame h.tidy hd he hs ht hround
  have hrec : ∀ {m}, m < 0xC0000 → m < recursivePage := fun hm => hm.trans (by decide)
  have hbefore : ∀ {i}, i < n → vm'.pageFrame d (t + i) = v.pageFrame d (t + i) := by
    intro i hi
    rw [hframe p d _ hd (hrec (by omega)), if_neg (by omega)]
  -- A round only looks back, so the last one changes nothing for the rounds before it.
  have hback : ∀ {i}, i ≤ n →
      ((earlierRound p q s t i).elim (vm.pageFrame e (s + i)) fun j => vm'.pageFrame d (t + j)) =
        (earlierRound p q s t i).elim (vm.pageFrame e (s + i)) fun j => v.pageFrame d (t + j) := by
    intro i hi
    unfold earlierRound
    split
    · exact hbefore (by omega)
    · rfl
  refine ⟨htidy, fun i hi => ?_, fun r g m hg hm hout => ?_⟩
  · rw [hback (Nat.le_of_lt_succ hi)]
    rcases Nat.lt_succ_iff_lt_or_eq.mp hi with hi | rfl
    · rw [hbefore hi, h.arrived i hi]
    · rw [hframe p d _ hd (hrec ht), if_pos ⟨rfl, rfl⟩,
        h.others p d _ hd (hrec ht) (fun _ j hj => by omega)]
      congr 1
      unfold earlierRound
      split
      · next hover =>
        obtain ⟨rfl, hle, -⟩ := hover
        obtain rfl := Option.some.inj (hd.symm.trans he)
        rw [Option.elim_some, Nat.add_sub_cancel' hle]
      · next hover =>
        exact h.others q e _ he (hrec hs) fun hqp j hj heq => hover ⟨hqp, by omega, by omega⟩
  · rw [hframe r g m hg hm, if_neg fun heq => hout heq.1 n n.lt_succ_self heq.2]
    exact h.others r g m hg hm fun hr i hi => hout hr i (Nat.lt_succ_of_lt hi)

theorem shareLoop_state {addrTo addrFrom size : Word} (htidy : vm.Tidy dirs) (hd : dirs p = some d)
    (he : dirs q = some e) (hfrom : addrFrom + size ≤ kernelVirtBase)
    (hto : addrTo.toNat / 4096 + pageCount (addrAlign addrFrom archPgsize) (addrFrom + size) ≤
      0xC0000)
    (h : pageLoop (sharePage d e flags) (addrFrom + size) pageFuel (addrAlign addrFrom archPgsize)
      (addrAlign addrTo archPgsize) vm = .ok () vm') :
    vm.ShareState dirs p q d e (addrFrom.toNat / 4096) (addrTo.toNat / 4096)
      (pageCount (addrAlign addrFrom archPgsize) (addrFrom + size)) vm' := by
  have hlast := le_lastPage hfrom
  have hsource : ∀ i < pageCount (addrAlign addrFrom archPgsize) (addrFrom + size),
      addrFrom.toNat / 4096 + i < 0xC0000 := by
    intro i hi
    have hlt := (toNat_pageAt hlast hi).2
    have hbase : (addrFrom + size).toNat ≤ 0xC0000000 := BitVec.le_def.mp hfrom
    rw [toNat_addrAlign] at hlt
    omega
  rw [pageLoop_eq_forM hlast (pageCount_lt hlast)] at h
  simp only [addrAlign_eq_pageNo, pageAt_pageNo] at h ⊢
  rw [addrAlign_eq_pageNo] at hsource hto
  refine forM_range_partial (I := fun n v => vm.ShareState dirs p q d e (addrFrom.toNat / 4096)
    (addrTo.toNat / 4096) n v) (fun i hi v v' hv hround => ?_) h
    ⟨htidy, fun i hi => absurd hi (Nat.not_lt_zero i), fun _ _ _ _ _ _ => rfl⟩
  exact hv.succ hd he (hsource i hi) (by omega) hround

end Horizon
