import Horizon.Memory.Sharing
import Horizon.Properties.UserRanges

/-!
# Horizon — memory that has been offered and accepted

`share` leaves an offer in the control block of the thread, and `accept` maps the memory of an offer
into the address space of the caller. The caller says where, and how large its range is. That range
is what `accept` checks, but the pages are counted by the size of the offer: `Kernel.Accepted` is
what the caller relies on, and below the kernel's half the caller gets it if and only if
`Kernel.Fits`. The code checks none of this.
-/

namespace Horizon

open StateError Vm

variable {k k' k₀ : Kernel} {p : Pid} {sid dest size : Word} {evs : List Event} {n : ℕ}

/-- The thread that has made an offer. -/
def offerer (sid : Word) : ThreadUid := ThreadUid.ofRaw (sid.setWidth 16)

/-- The pages of the range from `dest` on show what the offerer has in the corresponding pages of
the offer, and nothing else has changed in any address space. -/
structure Kernel.Accepted (sid dest size : Word) (k k' : Kernel) : Prop where
  dirs : k'.dirs = k.dirs
  arrived : ∀ d e, k.dirs k.schedulerCurr.pid = some d → k.dirs (offerer sid).pid = some e →
    ∀ i, 4096 * i < size.toNat → k'.vm.pageFrame d (dest.toNat / 4096 + i) =
      if Overlaps (k.offer sid).addr (k.offer sid).size ((k.offer sid).addr.toNat / 4096 + i) then
        k.vm.pageFrame e ((k.offer sid).addr.toNat / 4096 + i)
      else none
  others : ∀ q g n, k.dirs q = some g → n < recursivePage →
    (q = k.schedulerCurr.pid → ¬Overlaps dest size n) → k'.vm.pageFrame g n = k.vm.pageFrame g n

/-- The pages of the offer, as numbers counted from its first one. -/
def Kernel.Offers (k : Kernel) (sid : Word) (i : ℕ) : Prop :=
  Overlaps (k.offer sid).addr (k.offer sid).size ((k.offer sid).addr.toNat / 4096 + i)

/-- The ranges are below the kernel's half, and so is every page an offered one is mapped to. -/
structure Kernel.Below (k : Kernel) (sid dest size : Word) : Prop where
  range : lowRange dest size
  offer : lowRange (k.offer sid).addr (k.offer sid).size
  target : ∀ i, k.Offers sid i → dest.toNat / 4096 + i < 0xC0000

/-- Behind the range no page of the offer finds a free place. If caller and offerer share an address
space, then a page that has arrived is not met again as a page of the offer, unless its place is
taken. -/
structure Kernel.Fits (k : Kernel) (sid dest size : Word) : Prop where
  covers : ∀ i, k.Offers sid i → size.toNat ≤ 4096 * i →
    (k.vm.pageFrame (k.dirOf (offerer sid).pid) ((k.offer sid).addr.toNat / 4096 + i)).isSome →
    (k.vm.pageFrame (k.dirOf k.schedulerCurr.pid) (dest.toNat / 4096 + i)).isSome
  apart : (offerer sid).pid = k.schedulerCurr.pid → ∀ i, k.Offers sid i → ∀ j < i,
    4096 * j < size.toNat → (k.offer sid).addr.toNat / 4096 + i = dest.toNat / 4096 + j →
    (k.vm.pageFrame (k.dirOf (offerer sid).pid) ((k.offer sid).addr.toNat / 4096 + j)).isSome →
    (k.vm.pageFrame (k.dirOf k.schedulerCurr.pid) (dest.toNat / 4096 + i)).isSome

theorem syscallAccept_returned (hlow : lowRange (k.offer sid).addr (k.offer sid).size)
    (h : syscallAccept sid dest size k = .ok () k') (heax : k'.frame.eax = (k.offer sid).size) :
    size ≠ 0 ∧ pageAligned dest = true ∧ size % archPgsize = 0 ∧
      k.vm.rangeMapped (k.dirOf k.schedulerCurr.pid) dest size = some 0 ∧
      ∃ k₁, virtualShare k.schedulerCurr.pid (offerer sid).pid dest (k.offer sid).addr
        (k.offer sid).size (k.offer sid).prot k = .ok () k₁ ∧ k₁.vm = k'.vm ∧
        k₁.dirs = k'.dirs := by
  -- The error codes are larger than any range below the kernel's half.
  have hcode : ∀ {code : Word}, 0xC0000000 < code.toNat → ∀ {t : Kernel},
      k' ≠ { t with frame := { t.frame with eax := code } } := by
    rintro code hcode t rfl
    obtain rfl : code = (k.offer sid).size := heax
    unfold lowRange at hlow
    omega
  simp only [syscallAccept, ite_eq_ok, bind_eq_ok, get_bind_apply, portFromUid_eq_ok,
    syscallReturnSet, modify_eq_ok] at h
  rcases h with ⟨-, h⟩ | ⟨hsize, ⟨-, h⟩ | ⟨-, _, _, ⟨-, rfl, rfl⟩, ⟨-, h⟩ | ⟨-, h⟩⟩⟩
  · exact absurd h (hcode (by decide))
  · exact absurd h (hcode (by decide))
  · exact absurd h (hcode (by decide))
  · rcases h with ⟨-, h⟩ | ⟨haligned, ⟨-, h⟩ | ⟨hwhole, r, k₁, hmapped, h⟩⟩
    · exact absurd h (hcode (by decide))
    · exact absurd h (hcode (by decide))
    · obtain ⟨rfl, hanswer⟩ := virtualIsMapped_rangeMapped hmapped
      rcases h with ⟨-, h⟩ | ⟨hr, _, k₂, hshare, rfl⟩
      · exact absurd h (hcode (by decide))
      · rw [not_not] at hr hwhole
        exact ⟨hsize, by simpa using haligned, hwhole, hr ▸ hanswer, k₂, hshare, rfl, rfl⟩

section

variable (hbelow : k.Below sid dest size)
include hbelow

/-- A page of the offer is a round of the loop. -/
theorem lt_pageCount_iff_offers {i : ℕ} :
    i < pageCount (addrAlign (k.offer sid).addr archPgsize)
      ((k.offer sid).addr + (k.offer sid).size) ↔ k.Offers sid i := by
  have hlt : (k.offer sid).addr.toNat + (k.offer sid).size.toNat < 2 ^ 32 :=
    hbelow.offer.trans_lt (by decide)
  rw [Kernel.Offers, ← lt_pageCount_iff hlt (Nat.le_add_right _ _), Nat.add_lt_add_iff_left]

/-- What a call that has returned the size of the offer has done, in pages. -/
theorem syscallAccept_state (htidy : k.vm.Tidy k.dirs)
    (h : syscallAccept sid dest size k = .ok () k') (heax : k'.frame.eax = (k.offer sid).size) :
    k.liveProcess k.schedulerCurr.pid = true ∧ k.liveProcess (offerer sid).pid = true ∧
      dest.toNat % 4096 = 0 ∧ k'.dirs = k.dirs ∧
      (∀ i, 4096 * i < size.toNat →
        k.vm.pageFrame (k.dirOf k.schedulerCurr.pid) (dest.toNat / 4096 + i) = none) ∧
      k.vm.ShareState k.dirs k.schedulerCurr.pid (offerer sid).pid
        (k.dirOf k.schedulerCurr.pid) (k.dirOf (offerer sid).pid)
        ((k.offer sid).addr.toNat / 4096) (dest.toNat / 4096)
        (pageCount (addrAlign (k.offer sid).addr archPgsize)
          ((k.offer sid).addr + (k.offer sid).size)) k'.vm := by
  obtain ⟨-, haligned, -, hfree, k₁, hshare, hvm, hdirs⟩ :=
    syscallAccept_returned hbelow.offer h heax
  simp only [virtualShare, get_bind_apply, bind_eq_ok, dassertSome, orThrow_eq_ok,
    Kernel.processGet_eq_some, dassert_eq_ok, liftVm_eq_ok] at hshare
  obtain ⟨_, _, ⟨⟨hp, rfl⟩, rfl⟩, _, _, ⟨⟨hq, rfl⟩, rfl⟩, _, _, ⟨-, rfl⟩, vm', hloop, rfl⟩ := hshare
  have hrange := hbelow.range
  unfold lowRange at hrange
  -- All rounds stay below the kernel's half, the last one by `hbelow`.
  have hto : dest.toNat / 4096 + pageCount (addrAlign (k.offer sid).addr archPgsize)
      ((k.offer sid).addr + (k.offer sid).size) ≤ 0xC0000 := by
    cases hcount : pageCount (addrAlign (k.offer sid).addr archPgsize)
        ((k.offer sid).addr + (k.offer sid).size) with
    | zero => omega
    | succ count =>
      exact hbelow.target count ((lt_pageCount_iff_offers hbelow).mp (hcount ▸ count.lt_succ_self))
  have hstate := shareLoop_state htidy (Kernel.dirs_eq_some hp) (Kernel.dirs_eq_some hq)
    hbelow.offer.le hto hloop
  have hd := dirs_eq_dirOf hp
  have he := dirs_eq_dirOf hq
  rw [Kernel.dirs_eq_some hp, Option.some_inj] at hd
  rw [Kernel.dirs_eq_some hq, Option.some_inj] at he
  rw [hd, he] at hstate
  have hstart : (addrAlign dest archPgsize).toNat = dest.toNat :=
    congrArg BitVec.toNat (of_decide_eq_true haligned)
  rw [toNat_addrAlign] at hstart
  refine ⟨hp, hq, by omega, hdirs.symm, fun i hi => ?_, hvm ▸ hstate⟩
  have hunmapped := rangeMapped_unmapped hbelow.range hfree (n := dest.toNat / 4096 + i) (by
    unfold Overlaps overlaps
    omega)
  have hlt : dest.toNat / 4096 + i < 2 ^ 20 := by omega
  rw [hasPage_iff hlt, pagingIsMapped_pageNo, Option.not_isSome_iff_eq_none] at hunmapped
  exact hunmapped

end

/-- Below the kernel's half, the offer is mapped into the range of the caller page by page, and
nothing else happens, if and only if the offer fits. -/
theorem accepted_iff_fits (htidy : k.vm.Tidy k.dirs) (hbelow : k.Below sid dest size)
    (h : syscallAccept sid dest size k = .ok () k')
    (heax : k'.frame.eax = (k.offer sid).size) :
    k.Accepted sid dest size k' ↔ k.Fits sid dest size := by
  obtain ⟨hp, hq, hstart, hdirs, hnone, hstate⟩ := syscallAccept_state hbelow htidy h heax
  have hd := dirs_eq_dirOf hp
  have he := dirs_eq_dirOf hq
  -- The rounds of the loop are the pages of the offer.
  have hround := fun {i} => lt_pageCount_iff_offers (i := i) hbelow
  have hwithin : ∀ {i}, i < (size.toNat + 4095) / 4096 ↔ 4096 * i < size.toNat := by omega
  have hpage : ∀ {i}, Overlaps dest size (dest.toNat / 4096 + i) ↔ 4096 * i < size.toNat := by
    intro i
    unfold Overlaps overlaps
    omega
  have hlow : ∀ {i}, k.Offers sid i → dest.toNat / 4096 + i < recursivePage :=
    fun hi => (hbelow.target _ hi).trans (by decide)
  -- In its own process a round can copy a page that an earlier one has made.
  have hback : ∀ i j, earlierRound k.schedulerCurr.pid (offerer sid).pid
      ((k.offer sid).addr.toNat / 4096) (dest.toNat / 4096) i = some j → j < i ∧
        k.vm.pageFrame (k.dirOf (offerer sid).pid) ((k.offer sid).addr.toNat / 4096 + i) =
          k.vm.pageFrame (k.dirOf k.schedulerCurr.pid) (dest.toNat / 4096 + j) := by
    intro i j hj
    obtain ⟨hqp, hpage, hji⟩ := earlierRound_eq_some.mp hj
    rw [hqp, hpage]
    exact ⟨hji, rfl⟩
  have hcopy := rounds_copy_iff (M := (size.toNat + 4095) / 4096)
    (fun i hi => hnone i (hwithin.mp hi)) hback hstate.arrived
  -- What is mapped in the end is what was offered exactly if no round copied too much.
  constructor
  · intro haccepted
    obtain ⟨hcovers, hapart⟩ := hcopy.mp fun i hi => by
      split
      · next hM =>
        rw [haccepted.arrived _ _ hd he i (hwithin.mp hM)]
        exact if_pos (hround.mp hi)
      · next hM =>
        exact haccepted.others _ _ _ hd (hlow (hround.mp hi)) fun _ hin =>
          hM (hwithin.mpr (hpage.mp hin))
    refine ⟨fun i hi hM => hcovers i (hround.mpr hi) (by omega),
      fun hqp i hi j hji hj heq => hapart i (hround.mpr hi) j (hwithin.mpr hj) ?_⟩
    exact earlierRound_eq_some.mpr ⟨hqp, heq, hji⟩
  · intro hfits
    have hall := hcopy.mpr ⟨fun i hi hM => hfits.covers i (hround.mp hi) (by omega), by
      intro i hi j hj hearlier
      obtain ⟨hqp, hpage, hji⟩ := earlierRound_eq_some.mp hearlier
      exact hfits.apart hqp i (hround.mp hi) j hji (hwithin.mp hj) hpage⟩
    refine ⟨hdirs, fun d e hd' he' i hi => ?_, fun q g n hg hn hout => ?_⟩
    · obtain rfl := Option.some.inj (hd.symm.trans hd')
      obtain rfl := Option.some.inj (he.symm.trans he')
      split
      · next hin => rw [hall i (hround.mpr hin), if_pos (hwithin.mpr hi)]
      · next hin =>
        have hlt : dest.toNat / 4096 + i < recursivePage := by
          have hrange := hbelow.range
          unfold lowRange at hrange
          unfold recursivePage
          omega
        rw [hstate.others _ _ _ hd hlt, hnone i hi]
        exact fun _ j hj heq => hin (hround.mp (Nat.add_left_cancel heq ▸ hj))
    · by_cases hmapped : q = k.schedulerCurr.pid ∧ ∃ i, k.Offers sid i ∧ n = dest.toNat / 4096 + i
      · obtain ⟨rfl, i, hi, rfl⟩ := hmapped
        obtain rfl := Option.some.inj (hd.symm.trans hg)
        have hM := mt hwithin.mp (mt hpage.mpr (hout rfl))
        rw [hall i (hround.mpr hi), if_neg hM]
      · exact hstate.others q g n hg hn fun hq i hi heq =>
          hmapped ⟨hq, i, hround.mp hi, heq⟩

/-- The main threads of both processes offer the page at 0x1000 to process 2. -/
def offeringKernel : Kernel :=
  { bareKernel with
    blocks := fun pid =>
      { bareKernel.blocks pid with
        threads := fun _ =>
          { syscallInfo :=
              { shmOffer := { dest := { pid := 2 }, addr := 0x1000, size := 0x1000 } } } } }

/-- Process 3 gets the page that it offers, and process 2 accepts it. -/
theorem offered_page_accepted : ∃ k k', k.vm.Tidy k.dirs ∧
    (k.vm.pageFrame (k.dirOf 3) 1).isSome = true ∧
    syscallAccept 3 0x400000 0x1000 k = .ok () k' ∧ k.Accepted 3 0x400000 0x1000 k' := by
  obtain ⟨k, halloc, hany⟩ : ∃ k, virtualAlloc 3 0x1000 0x1000 offeringKernel = .ok () k ∧
      ((Syscall.accept 3 0x400000 0x1000).outcome k).any (fun k' =>
        decide (k'.frame.eax = (k.offer 3).size ∧ (k.offer 3).addr = 0x1000 ∧
          (k.offer 3).size = 0x1000 ∧ k.schedulerCurr.pid = 2 ∧
          (k.vm.pageFrame (k.dirOf 3) 1).isSome = true)) = true :=
    ⟨_, eq_ok_of_valueOf (by decide +kernel), by decide +kernel⟩
  obtain ⟨k', hcall, hk⟩ := (Option.any_eq_true _ _).mp hany
  obtain ⟨heax, haddr, hsize, hcurr, hmapped⟩ := of_decide_eq_true hk
  obtain ⟨heq, hremaps⟩ := virtualAlloc_remaps (by decide) (by decide) halloc
  have hdirs : offeringKernel.dirs = bareDirs := dirs_bareKernel
  have htidy : k.vm.Tidy k.dirs := by
    have hsame : k.dirs = offeringKernel.dirs := by
      rw [heq]
      rfl
    rw [hsame]
    exact (hremaps (hdirs ▸ bareVm_tidy)).1
  have hfirst : ∀ i, k.Offers 3 i → i = 0 := by
    intro i hi
    rw [Kernel.Offers, haddr, hsize] at hi
    have hlt : 4096 * (0x1000 / 4096 + i) < 0x1000 + 0x1000 := hi.1
    omega
  have hbelow : k.Below 3 0x400000 0x1000 := by
    refine ⟨by decide, ?_, fun i hi => hfirst i hi ▸ by decide⟩
    rw [haddr, hsize]
    decide
  have hfits : k.Fits 3 0x400000 0x1000 := by
    refine ⟨fun i hi hbehind => ?_, fun hsame => ?_⟩
    · rw [hfirst i hi] at hbehind
      exact absurd hbehind (by decide)
    · rw [hcurr] at hsame
      exact absurd hsame (by decide)
  exact ⟨k, k', htidy, hmapped, Syscall.run_of_outcome hcall,
    (accepted_iff_fits htidy hbelow (Syscall.run_of_outcome hcall) heax).mpr hfits⟩

/-- The first page of a process, which is at 0x2000 in memory, holds at 0x100 the descriptor of an
offer to process 2: two pages from 0x2000 on. -/
def offerRam (phys : Word) : BitVec 8 :=
  if phys = 0x2100 then 2 else if phys = 0x2105 then 0x20 else if phys = 0x2109 then 0x20 else 0

/-- The process accepts its own offer for a range of one page, and gets two. -/
theorem page_behind_range_mapped : ∃ k₀ k k', Booted k₀ ∧
    runEvents Kernel.step k₀ [callEvent 7 0x2000 0x2000 0, callEvent 11 0x1100 0 0] = some k ∧
    syscallAccept 2 0x400000 0x1000 k = .ok () k' ∧ k'.frame.eax = (k.offer 2).size ∧
    (k.offer 2).size = 0x2000 ∧ k.schedulerCurr.pid = 2 ∧ ¬Overlaps 0x400000 0x1000 0x401 ∧
    k.vm.pageFrame (k.dirOf 2) 0x401 = none ∧
    (k'.vm.pageFrame (k.dirOf 2) 0x401).isSome = true := by
  have hany : (runPages offerRam [0x2000]
      [callEvent 7 0x2000 0x2000 0, callEvent 11 0x1100 0 0]).any (fun k =>
        ((Syscall.accept 2 0x400000 0x1000).outcome k).any (fun k' =>
          decide (k'.frame.eax = (k.offer 2).size ∧ (k.offer 2).size = 0x2000 ∧
            k.schedulerCurr.pid = 2 ∧ k.vm.pageFrame (k.dirOf 2) 0x401 = none ∧
            (k'.vm.pageFrame (k.dirOf 2) 0x401).isSome = true))) = true := by decide +kernel
  obtain ⟨k₀, k, k', hboot, hrun, hcall, hk⟩ := exists_call_of_any hany
  obtain ⟨heax, hsize, hcurr, hbefore, hafter⟩ := of_decide_eq_true hk
  exact ⟨k₀, k, k', hboot, hrun, hcall, heax, hsize, hcurr, by decide, hbefore, hafter⟩

end Horizon
