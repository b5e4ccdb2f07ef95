import Horizon.Memory.Physical
import Horizon.Properties.FreeList

/-!
# Horizon — exclusive ownership of physical blocks

A run of `physical_alloc`, `physical_retain` and `physical_release` calls is judged by the list
of calls alone: a block is `Held` if it has been allocated and has not been released once more
than it was retained since. `ownership_of_run` says that the allocator keeps this account, with
a bitmap, a list of words and an 8-bit counter: it hands out no block that is held, and frees a
block with the call that ends the holding and no other.
-/

namespace Horizon

open StateError

/-- A call of the allocator that returned, with its result. -/
inductive BlockEvent where
  | alloc (block : Frame)
  | retain (block : Frame)
  | release (block : Frame) (freed : Bool)
  deriving DecidableEq

/-! ## The account -/

section Account

variable {block b : Frame} {evs evs₁ evs₂ : List BlockEvent} {ev : BlockEvent}

def retains (block : Frame) (evs : List BlockEvent) : Nat := evs.countP (· = .retain block)

def releases (block : Frame) (evs : List BlockEvent) : Nat :=
  evs.countP fun ev => ev = .release block true ∨ ev = .release block false

/-- The block has been allocated, and not released once more than retained since. -/
def Held (block : Frame) (evs : List BlockEvent) : Prop :=
  ∃ evs₁ evs₂, evs = evs₁ ++ .alloc block :: evs₂ ∧
    ∀ pre, pre <+: evs₂ → releases block pre ≠ retains block pre + 1

/-- What one call does to the number of references to `block`. -/
def BlockEvent.count (block : Frame) (n : Nat) : BlockEvent → Nat
  | .alloc b => if b = block then 1 else n
  | .retain b => if b = block ∧ n ≠ 0 then n + 1 else n
  | .release b _ => if b = block then n - 1 else n

/-- The references to `block` that are left. -/
def owed (block : Frame) (evs : List BlockEvent) : Nat := evs.foldl (BlockEvent.count block) 0

/-- Only blocks without references are allocated. -/
def Fair (evs : List BlockEvent) : Prop :=
  ∀ evs₁ block evs₂, evs = evs₁ ++ .alloc block :: evs₂ → owed block evs₁ = 0

theorem owed_snoc : owed block (evs ++ [ev]) = ev.count block (owed block evs) :=
  List.foldl_concat ..

theorem Fair.of_append (h : Fair (evs₁ ++ evs₂)) : Fair evs₁ := by
  rintro evs block rest rfl
  exact h evs block (rest ++ evs₂) (by simp)

theorem Fair.snoc (h : Fair evs) (hev : ∀ block, ev = .alloc block → owed block evs = 0) :
    Fair (evs ++ [ev]) := by
  intro evs₁ block evs₂ heq
  rcases List.eq_nil_or_concat evs₂ with rfl | ⟨rest, last, rfl⟩
  · obtain ⟨rfl, hlast⟩ := List.append_inj' heq rfl
    exact hev block (List.singleton_inj.mp hlast)
  · rw [List.concat_eq_append, ← List.cons_append, ← List.append_assoc] at heq
    exact h evs₁ block rest (List.append_inj' heq rfl).1

theorem retains_snoc :
    retains block (evs ++ [ev]) = retains block evs + if ev = .retain block then 1 else 0 := by
  rw [retains, List.countP_append, List.countP_singleton]
  simp [retains]

theorem releases_snoc : releases block (evs ++ [ev]) =
    releases block evs + if ev = .release block true ∨ ev = .release block false then 1 else 0 := by
  rw [releases, List.countP_append, List.countP_singleton]
  simp [releases]

/-- While a block is held, the references left are the difference of the two counts. -/
theorem owed_of_holding (hfair : Fair (evs₁ ++ .alloc block :: evs₂))
    (hheld : ∀ pre, pre <+: evs₂ → releases block pre ≠ retains block pre + 1) :
    owed block (evs₁ ++ .alloc block :: evs₂) + releases block evs₂ = 1 + retains block evs₂ ∧
      owed block (evs₁ ++ .alloc block :: evs₂) ≠ 0 := by
  induction evs₂ using List.reverseRecOn with
  | nil =>
    have : owed block (evs₁ ++ [.alloc block]) = 1 := by simp [owed_snoc, BlockEvent.count]
    rw [this]
    simp [releases, retains]
  -- The last event: only those about this block move one of the two counts.
  | append_singleton evs₂ ev ih =>
    rw [← List.cons_append, ← List.append_assoc] at hfair ⊢
    obtain ⟨hsum, hpos⟩ := ih hfair.of_append fun pre hpre =>
      hheld pre (hpre.trans (List.prefix_append _ _))
    have hlast := hheld _ (List.prefix_refl _)
    rw [retains_snoc, releases_snoc] at hlast
    rw [owed_snoc, retains_snoc, releases_snoc]
    cases ev with
    | alloc b =>
      by_cases hb : b = block
      · subst hb
        exact absurd (hfair _ b [] rfl) hpos
      · simp only [BlockEvent.count, hb, if_false, reduceCtorEq, or_self]
        exact ⟨hsum, hpos⟩
    | retain b =>
      by_cases hb : b = block
      · subst hb
        simp only [BlockEvent.count, true_and, if_pos hpos, reduceCtorEq, or_self, if_false,
          if_true]
        omega
      · simp only [BlockEvent.count, hb, false_and, if_false, reduceCtorEq, or_self,
          BlockEvent.retain.injEq]
        exact ⟨hsum, hpos⟩
    | release b freed =>
      by_cases hb : b = block
      · subst hb
        cases freed <;> simp only [BlockEvent.count, if_true, reduceCtorEq, if_false,
          BlockEvent.release.injEq, true_and, or_true, or_false, Bool.false_eq_true,
          Bool.true_eq_false] at hlast ⊢ <;> omega
      · simp only [BlockEvent.count, hb, if_false, reduceCtorEq,
          BlockEvent.release.injEq, false_and, or_self]
        exact ⟨hsum, hpos⟩

/-- In a fair list a block is held exactly as long as references to it are left. -/
theorem held_iff (hfair : Fair evs) : Held block evs ↔ owed block evs ≠ 0 := by
  constructor
  · rintro ⟨evs₁, evs₂, rfl, hheld⟩
    exact (owed_of_holding hfair hheld).2
  · intro howed
    induction evs using List.reverseRecOn with
    | nil => exact absurd rfl howed
    | append_singleton evs ev ih =>
      rw [owed_snoc] at howed
      by_cases halloc : ev = .alloc block
      · subst halloc
        refine ⟨evs, [], rfl, fun pre hpre => ?_⟩
        rw [List.prefix_nil.mp hpre]
        simp [releases, retains]
      · -- The block was held before, and the event is not its last release.
        have hprev : owed block evs ≠ 0 := by
          intro hzero
          rw [hzero] at howed
          cases ev <;> simp_all [BlockEvent.count]
        obtain ⟨evs₁, evs₂, rfl, hheld⟩ := ih hfair.of_append hprev
        obtain ⟨hsum, -⟩ := owed_of_holding hfair.of_append hheld
        refine ⟨evs₁, evs₂ ++ [ev], by simp, fun pre hpre => ?_⟩
        rcases List.prefix_concat_iff.mp hpre with rfl | hpre
        · rw [releases_snoc, retains_snoc]
          cases ev with
          | alloc b =>
            have := hheld _ (List.prefix_refl _)
            simpa using this
          | retain b =>
            simp only [reduceCtorEq, or_self, if_false]
            split <;> omega
          | release b freed =>
            by_cases hb : b = block
            · subst hb
              simp only [BlockEvent.count, if_true] at howed
              simp only [reduceCtorEq, if_false]
              split <;> omega
            · have := hheld _ (List.prefix_refl _)
              simpa [hb] using this
        · exact hheld pre hpre

end Account

/-! ## Runs of the allocator -/

variable {vm vm' vm₀ : Vm} {block : Frame} {ev : BlockEvent} {evs : List BlockEvent}

def blockStep (vm : Vm) : BlockEvent → Option Vm
  | .alloc block => returned (physicalAlloc vm) block
  | .retain block => returned (physicalRetain block vm) ()
  | .release block freed => returned (physicalRelease block vm) freed

/-- The call is about a block that the allocator manages. -/
def InRange (vm : Vm) : BlockEvent → Prop
  | .alloc _ => True
  | .retain block => blockIndex block < vm.blockCount
  | .release block _ => blockIndex block < vm.blockCount

/-- The state `physical_init` leaves behind, for any map of the memory that is available. -/
structure Vm.Ready (vm : Vm) (entries : Nat → BmstackEntry) : Prop where
  map : vm.allocMap = Bmstack.link { entries, head := none } vm.blockCount
  free : Bmstack.HasClear vm.blockCount { entries, head := none }
  counts : ∀ index, vm.refCounts index = 0
  size : vm.blockCount ≤ 2 ^ 20

/-- The free list, or the empty list of a stack that has been exhausted. -/
def Vm.Listed (vm : Vm) : Prop :=
  vm.allocMap.head = none ∨ ∃ l, vm.allocMap.FreeList (bitmapLength vm.blockCount) l

/-- The allocator's state agrees with the account. -/
structure Agrees (vm₀ : Vm) (evs : List BlockEvent) (vm : Vm) : Prop where
  size : vm.blockCount ≤ 2 ^ 20
  listed : vm.Listed
  counts : ∀ block, (vm.refCounts (blockIndex block)).toNat = owed block evs
  used : ∀ index, vm.refCounts index ≠ 0 →
    vm.allocMap.test index = true ∧ index / 32 < bitmapLength vm.blockCount
  reserved : ∀ index, vm₀.allocMap.test index = true →
    vm.allocMap.test index = true ∧ vm.refCounts index = 0
  fair : Fair evs

theorem Vm.Ready.agrees {entries : Nat → BmstackEntry} (h : vm₀.Ready entries) :
    Agrees vm₀ [] vm₀ where
  size := h.size
  listed := by
    obtain ⟨l, hl⟩ := Bmstack.link_freeList entries vm₀.blockCount
    exact Or.inr ⟨l, by rw [h.map]; exact hl⟩
  counts block := by rw [h.counts]; rfl
  used index hused := absurd (h.counts index) hused
  reserved index htest := ⟨htest, h.counts index⟩
  fair _ _ _ heq := by simp at heq

theorem Vm.Listed.findAndSet {index : Nat} {map : Bmstack} (h : vm.Listed)
    (hfind : vm.allocMap.findAndSet = some (index, map)) : index / 32 < bitmapLength vm.blockCount ∧
      ∃ l, map.FreeList (bitmapLength vm.blockCount) l := by
  rcases h with hnone | ⟨l, hl⟩
  · rw [Bmstack.findAndSet, hnone] at hfind
    cases hfind
  · exact hl.findAndSet hfind

theorem Vm.Listed.clear {index : Nat} (h : vm.Listed)
    (hindex : index / 32 < bitmapLength vm.blockCount) : (vm.allocMap.clear index).head = none ∨
      ∃ l, (vm.allocMap.clear index).FreeList (bitmapLength vm.blockCount) l := by
  rcases h with hnone | ⟨l, hl⟩
  · exact Or.inl (Bmstack.head_clear_of_none hnone)
  · by_cases hnone : vm.allocMap.head = none
    · exact Or.inl (Bmstack.head_clear_of_none hnone)
    · exact Or.inr (hl.clear hindex hnone)

/-- The account of one block changes with the counter of its index. -/
theorem counts_setCount {count : BitVec 8}
    (hcounts : ∀ b, (vm.refCounts (blockIndex b)).toNat = owed b evs)
    (hblock : count.toNat = ev.count block (owed block evs))
    (hother : ∀ b, b ≠ block → ev.count b (owed b evs) = owed b evs) (b : Frame) :
    ((vm.setCount (blockIndex block) count).refCounts (blockIndex b)).toNat =
      owed b (evs ++ [ev]) := by
  rw [owed_snoc]
  by_cases h : b = block
  · subst h
    rw [Vm.refCounts_setCount, Function.update_self, hblock]
  · rw [Vm.refCounts_setCount, Function.update_of_ne (mt blockIndex_inj.mp h), hother b h]
    exact hcounts b

theorem Agrees.alloc (h : Agrees vm₀ evs vm) (halloc : physicalAlloc vm = .ok block vm') :
    Agrees vm₀ (evs ++ [.alloc block]) vm' ∧ owed block evs = 0 ∧
      vm₀.allocMap.test (blockIndex block) = false := by
  obtain ⟨index, map, hfind, hlt, rfl, rfl⟩ := physicalAlloc_eq_ok.mp halloc
  have hindex := blockIndex_add (Nat.lt_of_lt_of_le hlt h.size)
  generalize physicalUsableBase + BitVec.ofNat 20 index = block at hindex
  subst hindex
  obtain ⟨htest, rfl⟩ := Bmstack.findAndSet_eq_some hfind
  obtain ⟨hword, hlist⟩ := h.listed.findAndSet hfind
  -- The bit was clear, so there was no reference.
  have hzero : vm.refCounts (blockIndex block) = 0 := by
    by_contra hne
    rw [(h.used _ hne).1] at htest
    cases htest
  have howed : owed block evs = 0 := by
    rw [← h.counts block, hzero]
    rfl
  have hfresh : vm₀.allocMap.test (blockIndex block) = false := by
    by_contra hset
    rw [(h.reserved _ (Bool.not_eq_false _ ▸ hset)).1] at htest
    cases htest
  refine ⟨⟨h.size, Or.inr hlist, ?_, fun index hused => ?_, fun index hset => ?_, ?_⟩, howed, hfresh⟩
  · exact counts_setCount h.counts (by simp [BlockEvent.count])
      fun b hb => by simp [BlockEvent.count, Ne.symm hb]
  · simp only [Bmstack.test_set]
    by_cases hindex : index = blockIndex block
    · subst hindex
      exact ⟨by simp, hword⟩
    · simp only [Vm.setCount, Function.update_of_ne hindex] at hused
      rw [(h.used index hused).1, Bool.or_true]
      exact ⟨rfl, (h.used index hused).2⟩
  · have hne : index ≠ blockIndex block := by
      rintro rfl
      rw [hfresh] at hset
      cases hset
    obtain ⟨htest', hcount⟩ := h.reserved index hset
    refine ⟨?_, (Function.update_of_ne hne _ _).trans hcount⟩
    show (vm.allocMap.set _).test index = true
    rw [Bmstack.test_set, htest', Bool.or_true]
  · refine h.fair.snoc fun b hb => ?_
    cases hb
    exact howed

/-- A call on a block without references changes nothing in the account. -/
theorem owed_snoc_of_zero (hzero : owed block evs = 0) (hev : ev = .retain block ∨
    ∃ freed, ev = .release block freed) (b : Frame) : owed b (evs ++ [ev]) = owed b evs := by
  rw [owed_snoc]
  by_cases hb : block = b
  · subst hb
    rcases hev with rfl | ⟨freed, rfl⟩ <;> simp [BlockEvent.count, hzero]
  · rcases hev with rfl | ⟨freed, rfl⟩ <;> simp [BlockEvent.count, hb]

/-- Only the counter of a block in use has changed, to another value that is not zero. -/
theorem Agrees.setCount {count : BitVec 8} (h : Agrees vm₀ evs vm)
    (hused : vm.refCounts (blockIndex block) ≠ 0)
    (hcount : count.toNat = ev.count block (owed block evs))
    (hother : ∀ b, b ≠ block → ev.count b (owed b evs) = owed b evs) (hev : ∀ b, ev ≠ .alloc b) :
    Agrees vm₀ (evs ++ [ev]) (vm.setCount (blockIndex block) count) := by
  have hne : ∀ index, vm₀.allocMap.test index = true → index ≠ blockIndex block := by
    rintro index hset rfl
    exact hused (h.reserved _ hset).2
  refine ⟨h.size, h.listed, counts_setCount h.counts hcount hother, fun index hindex => ?_,
    fun index hset => ⟨(h.reserved index hset).1, ?_⟩, h.fair.snoc fun b hb => absurd hb (hev b)⟩
  · by_cases heq : index = blockIndex block
    · subst heq
      exact h.used _ hused
    · rw [Vm.refCounts_setCount, Function.update_of_ne heq] at hindex
      exact h.used index hindex
  · rw [Vm.refCounts_setCount, Function.update_of_ne (hne index hset)]
    exact (h.reserved index hset).2

theorem Agrees.unchanged (h : Agrees vm₀ evs vm) (hzero : owed block evs = 0)
    (hev : ev = .retain block ∨ ∃ freed, ev = .release block freed) :
    Agrees vm₀ (evs ++ [ev]) vm := by
  refine ⟨h.size, h.listed, fun b => ?_, h.used, h.reserved, h.fair.snoc fun b hb => ?_⟩
  · rw [owed_snoc_of_zero hzero hev]
    exact h.counts b
  · rcases hev with rfl | ⟨freed, rfl⟩ <;> cases hb

theorem Agrees.retain (h : Agrees vm₀ evs vm) (hretain : physicalRetain block vm = .ok () vm') :
    Agrees vm₀ (evs ++ [.retain block]) vm' ∧ (owed block evs = 0 → vm' = vm) := by
  obtain ⟨hzero, rfl⟩ | ⟨hne, hmax, rfl⟩ := physicalRetain_eq_ok.mp hretain
  · have howed : owed block evs = 0 := by
      rw [← h.counts block, hzero]
      rfl
    exact ⟨h.unchanged howed (Or.inl rfl), fun _ => rfl⟩
  · have hcount := h.counts block
    have hpos : owed block evs ≠ 0 := by
      rw [← hcount]
      exact fun hzero => hne (BitVec.eq_of_toNat_eq hzero)
    refine ⟨h.setCount hne ?_ (fun b hb => ?_) nofun, fun hzero => absurd hzero hpos⟩
    · rw [BitVec.toNat_add, hcount]
      have hlt' : (vm.refCounts (blockIndex block)).toNat ≠ 255 := fun heq =>
        hmax (BitVec.eq_of_toNat_eq heq)
      have hbound := (vm.refCounts (blockIndex block)).isLt
      rw [hcount] at hlt' hbound
      simp [BlockEvent.count, hpos]
      omega
    · simp [BlockEvent.count, Ne.symm hb]

/-- A release keeps the counts in step, and frees the block with the last reference. -/
theorem Agrees.release {freed : Bool} (h : Agrees vm₀ evs vm)
    (hrelease : physicalRelease block vm = .ok freed vm') :
    Agrees vm₀ (evs ++ [.release block freed]) vm' ∧ (owed block evs = 0 → vm' = vm) ∧
      (freed = true ↔ owed block evs = 1) := by
  have hcount := h.counts block
  have hother : ∀ b, b ≠ block →
      BlockEvent.count b (owed b evs) (.release block freed) = owed b evs := fun b hb => by
    simp [BlockEvent.count, Ne.symm hb]
  obtain ⟨hzero, rfl, rfl⟩ | ⟨hne, hmore, rfl, rfl⟩ | ⟨hone, htest, rfl, rfl⟩ :=
    physicalRelease_eq_ok.mp hrelease
  · have howed : owed block evs = 0 := by
      rw [← hcount, hzero]
      rfl
    refine ⟨h.unchanged howed (Or.inr ⟨false, rfl⟩), fun _ => rfl, ?_⟩
    simp [howed]
  · have hpos : (vm.refCounts (blockIndex block)).toNat ≠ 0 := fun hzero =>
      hne (BitVec.eq_of_toNat_eq hzero)
    have hmore' : (vm.refCounts (blockIndex block)).toNat ≠ 1 := fun hone =>
      hmore (BitVec.eq_of_toNat_eq hone)
    refine ⟨h.setCount hne ?_ hother nofun, fun hzero => absurd (hcount.trans hzero) hpos, ?_⟩
    · have hbound := (vm.refCounts (blockIndex block)).isLt
      rw [BitVec.toNat_sub, BlockEvent.count, if_pos rfl, ← hcount]
      simp
      omega
    · simp [← hcount, hmore']
  · have howed : owed block evs = 1 := by
      rw [← hcount, hone]
      rfl
    have hused : vm.refCounts (blockIndex block) ≠ 0 := by
      rw [hone]
      decide
    have hgone : (0 : BitVec 8).toNat =
        (BlockEvent.release block true).count block (owed block evs) := by
      simp [BlockEvent.count, howed]
    have hset := h.setCount hused hgone hother nofun
    -- A block that was taken before the run has no count and is not released.
    have hne : ∀ index, vm₀.allocMap.test index = true → index ≠ blockIndex block := by
      rintro index hset rfl
      exact hused (h.reserved _ hset).2
    refine ⟨⟨h.size, h.listed.clear (h.used _ hused).2, hset.counts, fun index hindex => ?_,
      fun index hset' => ⟨?_, (hset.reserved index hset').2⟩, hset.fair⟩, ?_, by simp [howed]⟩
    · have heq : index ≠ blockIndex block := by
        rintro rfl
        exact hindex (Function.update_self ..)
      refine ⟨?_, (hset.used index hindex).2⟩
      show (vm.allocMap.clear _).test index = true
      rw [Bmstack.test_clear, decide_eq_false heq]
      exact (hset.used index hindex).1
    · show (vm.allocMap.clear _).test index = true
      rw [Bmstack.test_clear, decide_eq_false (hne index hset')]
      exact (h.reserved index hset').1
    · rw [howed]
      exact nofun

theorem Agrees.step (h : Agrees vm₀ evs vm) (hstep : blockStep vm ev = some vm') :
    Agrees vm₀ (evs ++ [ev]) vm' := by
  cases ev with
  | alloc block => exact (h.alloc (returned_eq_some.mp hstep)).1
  | retain block => exact (h.retain (returned_eq_some.mp hstep)).1
  | release block freed => exact (h.release (returned_eq_some.mp hstep)).1

theorem agrees_of_run {entries : Nat → BmstackEntry} (h : vm₀.Ready entries)
    (hrun : Steps blockStep (fun vm ev _ => InRange vm ev) vm₀ evs vm) : Agrees vm₀ evs vm :=
  hrun.invariant_history (fun _ _ _ _ hs hstep _ => hs.step hstep) h.agrees

/-- An allocation never runs past the end of the counters. -/
theorem Agrees.error_of_alloc {e : Fault} (h : Agrees vm₀ evs vm)
    (halloc : physicalAlloc vm = .error e vm') : e = .assertion := by
  unfold physicalAlloc at halloc
  rw [get_bind_apply] at halloc
  cases hfind : vm.allocMap.findAndSet with
  | none =>
    rw [hfind] at halloc
    cases halloc
    rfl
  | some r =>
    obtain ⟨index, map⟩ := r
    obtain ⟨hword, -⟩ := h.listed.findAndSet hfind
    have hlt : index < vm.blockCount := by
      simp only [bitmapLength, bitmapBits] at hword
      omega
    have hok := physicalAlloc_eq_ok.mpr ⟨index, map, hfind, hlt, rfl, rfl⟩
    unfold physicalAlloc at hok
    rw [get_bind_apply] at hok
    rw [hok] at halloc
    cases halloc

/-- A block that is held is not handed out, nor is one that was not available at the start;
freeing is the release that ends the holding; calls on a block that is not held change nothing;
and an allocation that does not return has tripped an assertion. -/
theorem ownership_of_run {entries : Nat → BmstackEntry} (h : vm₀.Ready entries)
    (hrun : Steps blockStep (fun vm ev _ => InRange vm ev) vm₀ evs vm) :
    (∀ block vm', blockStep vm (.alloc block) = some vm' → ¬Held block evs ∧
      Bmstack.test { entries, head := none } (blockIndex block) = false) ∧
    (∀ block freed vm', blockStep vm (.release block freed) = some vm' →
      (freed = true ↔ Held block evs ∧ ¬Held block (evs ++ [.release block freed])) ∧
      (¬Held block evs → vm' = vm)) ∧
    (∀ block vm', blockStep vm (.retain block) = some vm' → ¬Held block evs → vm' = vm) ∧
    (∀ e vm', physicalAlloc vm = .error e vm' → e = .assertion) := by
  have hagrees := agrees_of_run h hrun
  refine ⟨fun block vm' halloc => ?_, fun block freed vm' hrelease => ⟨?_, fun hheld => ?_⟩,
    fun block vm' hretain hheld => ?_, fun e vm' => hagrees.error_of_alloc⟩
  · obtain ⟨-, howed, htest⟩ := hagrees.alloc (returned_eq_some.mp halloc)
    rw [h.map, Bmstack.test_link] at htest
    exact ⟨fun hheld => (held_iff hagrees.fair).mp hheld howed, htest⟩
  · obtain ⟨hagrees', -, hfreed⟩ := hagrees.release (returned_eq_some.mp hrelease)
    rw [hfreed, held_iff hagrees.fair, held_iff hagrees'.fair, owed_snoc, BlockEvent.count,
      if_pos rfl]
    omega
  · obtain ⟨-, hsame, -⟩ := hagrees.release (returned_eq_some.mp hrelease)
    rw [held_iff hagrees.fair, not_not] at hheld
    exact hsame hheld
  · obtain ⟨-, hsame⟩ := hagrees.retain (returned_eq_some.mp hretain)
    rw [held_iff hagrees.fair, not_not] at hheld
    exact hsame hheld

/-- Memory with 32 blocks, all of them free. -/
def oneWordVm : Vm where
  pages := fun _ _ => {}
  kernelDir := 0
  cr3 := 0
  allocMap := Bmstack.link { entries := fun _ => {}, head := none } 32
  refCounts := fun _ => 0
  blockCount := 32
  ram := fun _ => 0
  blocksBase := 0

/-- A block is allocated, retained and released: it is still held, and the next release frees
it. -/
theorem block_freed_by_last_release :
    ∃ vm vm', oneWordVm.Ready (fun _ => {}) ∧
      Steps blockStep (fun vm ev _ => InRange vm ev) oneWordVm
        [.alloc 0x1000, .retain 0x1000, .release 0x1000 false] vm ∧
      blockStep vm (.release 0x1000 true) = some vm' ∧
      Held 0x1000 [.alloc 0x1000, .retain 0x1000, .release 0x1000 false] := by
  have hready : oneWordVm.Ready fun _ => {} := ⟨rfl, by decide, fun _ => rfl, by decide⟩
  have hany : (runEvents (checked blockStep fun vm ev _ => match ev with
        | .alloc _ => true
        | .retain block => blockIndex block < vm.blockCount
        | .release block _ => blockIndex block < vm.blockCount) oneWordVm
      [.alloc 0x1000, .retain 0x1000, .release 0x1000 false]).any
      (fun vm => (blockStep vm (.release 0x1000 true)).isSome) = true := by decide +kernel
  obtain ⟨vm, hrun, hp⟩ := exists_steps_of_any (P := fun vm ev _ => InRange vm ev)
    (fun vm ev vm' hcheck => by cases ev <;> simp_all [InRange]) hany
  obtain ⟨vm', hstep⟩ := Option.isSome_iff_exists.mp hp
  obtain ⟨hfreed, -⟩ := (ownership_of_run hready hrun).2.1 _ _ _ hstep
  exact ⟨vm, vm', hready, hrun, hstep, (hfreed.mp rfl).1⟩

end Horizon
