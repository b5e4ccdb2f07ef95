import Horizon.Ipc.ListRefinement
import Horizon.System.Exposed
import Horizon.System.RegistryTrace

/-!
# Horizon — message slots without memory

A control block is reserved in nine pages, of which `process_new` maps the one with the process
itself and `thread_new` those with the threads, from the seventh on. The message slots in between
are left out: the first 160 happen to lie in the first page and the last 9 in the seventh, but
for the others nobody maps anything. `message_add` takes the first slot that is not in use,
without looking.

We carry along a run which pages have been asked for since the process was created (`mapStep`). The
run has to spare the kernel's memory: a thread too many moves the pointer to the slots.
-/

namespace Horizon

open StateError

variable {k k' k₀ : Kernel} {ev : Event} {evs : List Event} {p : Pid} {u : ThreadUid}

/-! ## Layout -/

/-- `sizeof(message_t)`. -/
def messageSize : Nat := 24

theorem overlaps_process {page : Nat} : overlaps 0 processSize page ↔ page = 0 := by
  simp only [overlaps, processSize]
  omega

theorem overlaps_thread {tid : Tid} {page : Nat}
    (h : overlaps (threadOffset tid.toNat) threadSize page) : 6 ≤ page := by
  simp only [overlaps, threadOffset, threadSize, messageOffset, processSize, processMessageMax] at h
  omega

theorem overlaps_first_thread : overlaps (threadOffset (0 : Tid).toNat) threadSize 6 :=
  ⟨by decide, by decide⟩

section Slot

variable {index page : Nat}

theorem overlaps_low_slot (hindex : index < 160)
    (h : overlaps (messageOffset index) messageSize page) : page = 0 := by
  simp only [overlaps, messageOffset, processSize, messageSize] at h
  omega

/-- Past the array, too: the word behind the bitmap has 32 more bits. -/
theorem overlaps_high_slot (hlow : 1015 ≤ index) (hhigh : index < 1056)
    (h : overlaps (messageOffset index) messageSize page) : page = 6 := by
  simp only [overlaps, messageOffset, processSize, messageSize] at h
  omega

theorem overlaps_middle_slot (hlow : 160 ≤ index) (hhigh : index < 1015) :
    ∃ page, 1 ≤ page ∧ page ≤ 5 ∧ overlaps (messageOffset index) messageSize page := by
  simp only [overlaps, messageOffset, processSize, messageSize]
  -- The page of the last byte, unless that is in the seventh page already.
  refine ⟨min 5 ((259 + 24 * index) / 4096), ?_, ?_, ?_, ?_⟩ <;> omega

end Slot

/-! ## The pages that have been asked for -/

/-- The pages of a block that `process_new` and `thread_new` ask for, for what is alive. -/
def Kernel.Uses (k : Kernel) (p : Pid) (page : Nat) : Prop :=
  (k.liveProcess p = true ∧ overlaps 0 processSize page) ∨
    ∃ tid, k.live { pid := p, tid } = true ∧ overlaps (threadOffset tid.toNat) threadSize page

/-- One event, with the pages that were asked for since each process was created: they stay
mapped when threads die, until `process_kill` unmaps the block. -/
def mapStep (s : Kernel × (Pid → Nat → Prop)) (ev : Event) :
    Option (Kernel × (Pid → Nat → Prop)) :=
  (Exposed.step s.1 ev).map fun k' => (k', fun p page =>
    k'.Uses p page ∨ s.1.liveProcess p = true ∧ k'.liveProcess p = true ∧ s.2 p page)

/-- Is a message slot in use? -/
def Kernel.slotUsed (k : Kernel) (p : Pid) (i : Nat) : Bool :=
  bitmapTest (k.blocks p).process.msgInfo.bitmap i

theorem bitmapTest_messageWords {i : Nat} (hi : i < processMessageMax) :
    bitmapTest (k.blocks p).process.messageWords i = k.slotUsed p i := by
  refine bitmapTest_of_agree (fun j hj => if_pos hj) ?_
  simp only [processMessageMax, bitmapLength, bitmapBits] at *
  omega

section NextSlot

variable {index : Nat}

theorem Kernel.nextSlot_lt (h : k.nextSlot p = some index) : index < 1056 :=
  bitmapFindAndSet_lt (Prod.ext h rfl)

theorem Kernel.slotUsed_of_lt (h : k.nextSlot p = some index) {i : Nat} (hi : i < index)
    (hmax : i < processMessageMax) : k.slotUsed p i = true := by
  rw [← bitmapTest_messageWords hmax]
  exact bitmapFindAndSet_least (Prod.ext h rfl) hi

theorem Kernel.slotUsed_nextSlot (h : k.nextSlot p = some index)
    (hmax : index < processMessageMax) : k.slotUsed p index = false := by
  rw [← bitmapTest_messageWords hmax]
  exact (bitmapFindAndSet_eq_some (Prod.ext h rfl)).1

end NextSlot

/-- The pages of the message slots in between are not asked for; those at either end are. -/
structure Mapped (k : Kernel) (mapped : Pid → Nat → Prop) : Prop where
  reserved : k.Reserved
  base : ∀ p, k.liveProcess p = true → mapped p 0
  first : ∀ u, k.live u = true → mapped u.pid 6
  outside : ∀ p page, mapped p page → page = 0 ∨ 6 ≤ page

theorem Kernel.Uses.outside {page : Nat} (h : k.Uses p page) : page = 0 ∨ 6 ≤ page := by
  rcases h with ⟨-, h⟩ | ⟨tid, -, h⟩
  · exact Or.inl (overlaps_process.mp h)
  · exact Or.inr (overlaps_thread h)

theorem Kernel.uses_first (h : k.live { pid := p, tid := 0 } = true) : k.Uses p 6 :=
  Or.inr ⟨0, h, overlaps_first_thread⟩

theorem Booted.mapped (h : Booted k) : Mapped k k.Uses where
  reserved := h.registry.reserved
  base p hp := Or.inl ⟨hp, overlaps_process.mpr rfl⟩
  first u hu := by
    have htid := h.registry.single u (Kernel.registry_thread_isSome.trans hu)
    refine Kernel.uses_first ?_
    rw [← htid]
    exact hu
  outside p page hpage := hpage.outside

theorem Mapped.step {mapped mapped' : Pid → Nat → Prop} (h : Mapped k mapped)
    (hspares : ev.Spares k) (hmap : mapStep (k, mapped) ev = some (k', mapped')) :
    Mapped k' mapped' := by
  obtain ⟨t, hstep, heq⟩ := Option.map_eq_some_iff.mp hmap
  obtain ⟨rfl, rfl⟩ := Prod.mk.inj heq
  rw [Exposed.step_eq hspares] at hstep
  -- Where a thread was alive before, the page is there already.
  have hold : ∀ u v, k.live u = true → t.live v = true → u.pid = v.pid →
      t.Uses v.pid 6 ∨ k.liveProcess v.pid = true ∧ t.liveProcess v.pid = true ∧
        mapped v.pid 6 := by
    intro u v hu hv hpid
    rw [← hpid]
    exact Or.inr ⟨Kernel.liveProcess_of_live hu, hpid ▸ Kernel.liveProcess_of_live hv, h.first u hu⟩
  refine ⟨(Kernel.step_registers h.reserved hstep).reserved,
    fun p hp => Or.inl (Or.inl ⟨hp, overlaps_process.mpr rfl⟩), fun v hv => ?_,
    fun p page hpage => hpage.elim Kernel.Uses.outside fun hkept => h.outside p page hkept.2.2⟩
  cases hcreate : ev.creates with
  | false => exact hold v v (Kernel.live_of_step h.reserved hcreate hstep hv) hv rfl
  | true =>
    rcases Kernel.step_creates hcreate hstep with hsame | ⟨uid, hnext, hvalid, hregistry⟩
    · refine hold v v ?_ hv rfl
      rwa [← Kernel.registry_thread_isSome, ← hsame, Kernel.registry_thread_isSome]
    · by_cases hother : ∃ u, u.pid = v.pid ∧ k.live u = true
      · obtain ⟨u, hpid, hu⟩ := hother
        exact hold u v hu hv hpid
      · -- The first thread of its process has TID 0.
        have hnew : v = uid := by
          by_contra hne
          refine hother ⟨v, rfl, ?_⟩
          rw [← Kernel.registry_thread_isSome, hregistry] at hv
          simp only [Registry.apply, if_neg hne, Option.isSome_map] at hv
          rwa [Kernel.registry_thread_isSome] at hv
        subst hnew
        have htid := Kernel.nextTid_first (Kernel.registry_process_isSome.symm.trans hvalid.1)
          (fun u hu => Bool.eq_false_iff.mpr fun hlive => hother ⟨u, hu, hlive⟩) hnext
        refine Or.inl (Kernel.uses_first ?_)
        rw [← htid]
        exact hv

theorem Mapped.of_run {mapped : Pid → Nat → Prop} (hboot : Booted k₀)
    (hrun : Steps mapStep (fun s ev _ => ev.Spares s.1) (k₀, k₀.Uses) evs (k, mapped)) :
    Mapped k mapped := by
  refine hrun.invariant (I := fun s => Mapped s.1 s.2) ?_ hboot.mapped
  exact fun _ _ _ hs hstep hspares => hs.step hspares hstep

/-- In every state that a run reaches which spares the kernel's memory, and for every live thread,
the slot that the next message would get lies in pages that were mapped for the control block just
if one of the first 160 slots is free, or none of the first 1015. -/
theorem slot_in_mapped_pages {mapped : Pid → Nat → Prop} {index : Nat} (hboot : Booted k₀)
    (hrun : Steps mapStep (fun s ev _ => ev.Spares s.1) (k₀, k₀.Uses) evs (k, mapped))
    (hlive : k.live u = true) (hnext : k.nextSlot u.pid = some index) :
    (∀ page, overlaps (messageOffset index) messageSize page → mapped u.pid page) ↔
      (∃ i < 160, k.slotUsed u.pid i = false) ∨ ∀ i < 1015, k.slotUsed u.pid i = true := by
  have hmapped := Mapped.of_run hboot hrun
  have hlt := Kernel.nextSlot_lt hnext
  constructor
  · intro hinside
    by_contra hmiddle
    obtain ⟨hfull, hfree⟩ := not_or.mp hmiddle
    have hlow : 160 ≤ index := by
      by_contra hindex
      have hsmall : index < 160 := by omega
      refine hfull ⟨index, hsmall, Kernel.slotUsed_nextSlot hnext ?_⟩
      exact hsmall.trans (by decide)
    have hhigh : index < 1015 := by
      by_contra hindex
      refine hfree fun i hi => Kernel.slotUsed_of_lt hnext (by omega) ?_
      exact hi.trans (by decide)
    obtain ⟨page, h1, h5, hpage⟩ := overlaps_middle_slot hlow hhigh
    have houtside := hmapped.outside _ page (hinside page hpage)
    omega
  · rintro (⟨i, hi, hclear⟩ | hfull) page hpage
    · have hindex : index < 160 := by
        by_contra hge
        rw [Kernel.slotUsed_of_lt hnext (by omega) (hi.trans (by decide))] at hclear
        cases hclear
      rw [overlaps_low_slot hindex hpage]
      exact hmapped.base _ (Kernel.liveProcess_of_live hlive)
    · have hindex : 1015 ≤ index := by
        by_contra hlt'
        have hused := hfull index (by omega)
        rw [Kernel.slotUsed_nextSlot hnext (by simp only [processMessageMax]; omega)] at hused
        cases hused
      rw [overlaps_high_slot hindex hlt hpage]
      exact hmapped.first u hlive

/-- The first message to the first process gets a slot in the page of the process. -/
theorem first_slot_is_mapped : ∃ k₀, Booted k₀ ∧ k₀.nextSlot 2 = some 0 ∧
    ∀ page, overlaps (messageOffset 0) messageSize page → k₀.Uses 2 page := by
  have hany : (runPages (fun _ => 0) [0x2000] []).any (fun k =>
      decide (k.live { pid := 2, tid := 0 } = true ∧ k.nextSlot 2 = some 0 ∧
        k.slotUsed 2 0 = false)) = true := by decide +kernel
  obtain ⟨k₀, _, hboot, hrun, hp⟩ := exists_run_of_any hany
  cases hrun
  obtain ⟨hlive, hnext, hfree⟩ := of_decide_eq_true hp
  exact ⟨k₀, hboot, hnext, (slot_in_mapped_pages hboot (.nil _) hlive hnext).mpr
    (Or.inl ⟨0, by decide, hfree⟩)⟩

theorem exists_mapSteps {P : Kernel → Event → Kernel → Prop}
    (h : Steps Kernel.step P k₀ evs k) (hevs : ∀ ev ∈ evs, ev.harmless = true)
    (mapped : Pid → Nat → Prop) :
    ∃ mapped', Steps mapStep (fun s ev _ => ev.Spares s.1) (k₀, mapped) evs (k, mapped') := by
  induction h generalizing mapped with
  | nil k => exact ⟨mapped, .nil _⟩
  | @cons k₀ t k ev evs hstep _ _ ih =>
    have hspares : ev.Spares k₀ := Event.spares_of_harmless (hevs ev List.mem_cons_self)
    obtain ⟨mapped', hsteps⟩ := ih (fun e he => hevs e (List.mem_cons_of_mem ev he)) _
    refine ⟨mapped', .cons (Option.map_eq_some_iff.mpr ⟨t, ?_, rfl⟩) hspares hsteps⟩
    exact (Exposed.step_eq hspares).trans hstep

/-- Has a program met a page fault? -/
def faulted {α : Type} : EStateM.Result Fault Kernel α → Bool
  | .error .pageFault _ => true
  | _ => false

/-- 160 messages that nobody picks up, on the small machine. -/
theorem exists_full_page : ∃ k₀ k, Booted k₀ ∧
    Steps Kernel.step NoFirstWake k₀ (List.replicate 160 (.ksend { pid := 2 } 0 #v[0, 0, 0])) k ∧
    k.Sound ∧ k.threadsIn [⟨2, 0⟩] = true ∧ k.live { pid := 2, tid := 0 } = true ∧
    (k.blocks 2).process.msgInfo.count = 160 ∧ ((k.blocks 2).info 0).count = 160 ∧
    (k.blocks 2).usedSlots.card = 160 ∧ k.nextSlot 2 = some 160 ∧
    faulted (messageAdd { pid := 2, tid := 0 } .kernel
      (pure { dest := {}, code := 0, args := #v[0, 0, 0] }) false k) = true := by
  have hany : (runSettled [⟨2, 0⟩] (fun _ => 0) [0x2000]
      (List.replicate 160 (.ksend { pid := 2 } 0 #v[0, 0, 0]))).any (fun k =>
        decide (k.threadsIn [⟨2, 0⟩] = true ∧ k.live { pid := 2, tid := 0 } = true ∧
          (k.blocks 2).process.msgInfo.count = 160 ∧ ((k.blocks 2).info 0).count = 160 ∧
          (k.blocks 2).usedSlots.card = 160 ∧ k.nextSlot 2 = some 160 ∧
          faulted (messageAdd { pid := 2, tid := 0 } .kernel
            (pure { dest := {}, code := 0, args := #v[0, 0, 0] }) false k) = true)) = true := by
    decide +kernel
  obtain ⟨k₀, k, hboot, hrun, hsound, hp⟩ := exists_settled_of_any hany
  exact ⟨k₀, k, hboot, hrun, hsound, of_decide_eq_true hp⟩

/-- With 160 messages in the queue, the next slot is not mapped. -/
theorem full_page_of_messages : ∃ k₀ k mapped, Booted k₀ ∧
    Steps mapStep (fun s ev _ => ev.Spares s.1) (k₀, k₀.Uses)
      (List.replicate 160 (.ksend { pid := 2 } 0 #v[0, 0, 0])) (k, mapped) ∧
    k.live { pid := 2, tid := 0 } = true ∧ (k.blocks 2).process.msgInfo.count = 160 ∧
    k.nextSlot 2 = some 160 ∧ overlaps (messageOffset 160) messageSize 1 ∧ ¬mapped 2 1 ∧
    faulted (messageAdd { pid := 2, tid := 0 } .kernel
      (pure { dest := {}, code := 0, args := #v[0, 0, 0] }) false k) = true := by
  obtain ⟨k₀, k, hboot, hrun, -, -, hlive, hcount, -, -, hnext, hfault⟩ := exists_full_page
  obtain ⟨mapped, hsteps⟩ := exists_mapSteps hrun (fun _ h => List.eq_of_mem_replicate h ▸ rfl)
    k₀.Uses
  refine ⟨k₀, k, mapped, hboot, hsteps, hlive, hcount, hnext, ⟨by decide, by decide⟩,
    fun hpage => ?_, hfault⟩
  exact absurd ((Mapped.of_run hboot hsteps).outside 2 1 hpage) (by decide)

/-! ## The queues as lists -/

/-- The slot that the next message gets is mapped. -/
def Kernel.NextMapped (k : Kernel) (pid : Pid) : Prop :=
  ∀ index, k.nextSlot pid = some index → k.slotMapped pid index = true

/-- Adding a message is the list operation, or a page fault after the slot has been reserved. -/
theorem messageAdd_apply (hlive : k.live u = true) (h : (k.blocks u.pid).WellFormed)
    (hcount : (k.blocks u.pid).process.msgInfo.count < processMessageMax) (sender : IpcPort)
    (msg : Msg) (head : Bool) :
    ∃ index b', k.nextSlot u.pid = some index ∧
      (k.blocks u.pid).Refines u.tid b' (if head then
          Block.envelopeOf sender msg :: (k.blocks u.pid).queue u.tid
        else (k.blocks u.pid).queue u.tid ++ [Block.envelopeOf sender msg]) ∧
      messageAdd u sender (pure msg) head k =
        if k.slotMapped u.pid index then .ok msg (k.setBlock u.pid b')
        else .error .pageFault (k.setBlock u.pid ((k.blocks u.pid).reserve index)) := by
  have hblock : (k.blocks u.pid).live u.tid = true := Kernel.live_block hlive
  obtain ⟨index, b', htake, hfill, href⟩ :=
    Block.fillSlot_refines h hcount hblock sender msg head
  have hproc : k.processGet u.pid = some (k.blocks u.pid).process :=
    Kernel.processGet_eq_some.mpr ⟨Kernel.liveProcess_of_live hlive, rfl⟩
  have htake' : onBlock u.pid Block.takeSlot k =
      .ok index (k.setBlock u.pid ((k.blocks u.pid).reserve index)) :=
    onBlock_eq_ok.mpr ⟨_, htake, rfl⟩
  refine ⟨index, b', (Block.takeSlot_eq_ok.mp htake).2.1, href, ?_⟩
  rw [messageAdd, get_bind_apply, hproc, dassertSome, orThrow, pure_bind,
    bind_apply_of_ok htake', get_bind_apply]
  have hsame : (k.setBlock u.pid ((k.blocks u.pid).reserve index)).slotMapped u.pid index =
      k.slotMapped u.pid index := rfl
  rw [hsame]
  cases hmapped : k.slotMapped u.pid index with
  | false => rfl
  | true =>
    have hfill' : onBlock u.pid (Block.fillSlot index u.tid sender msg head)
        (k.setBlock u.pid ((k.blocks u.pid).reserve index)) = .ok () (k.setBlock u.pid b') := by
      refine onBlock_eq_ok.mpr ⟨b', ?_, ?_⟩
      · rw [Kernel.blocks_setBlock, if_pos rfl]
        exact hfill
      · simp only [Kernel.setBlock, Function.update_idem]
    show (onBlock u.pid (Block.fillSlot index u.tid sender msg head) >>= fun _ => pure msg) _ = _
    rw [bind_apply_of_ok hfill']
    rfl

/-- The functions of `message.c` simulate list operations on the queue of one thread. For
`message_add` the slot it takes has to be mapped. -/
theorem message_queue_refines_lists (k : Kernel) (u : ThreadUid) (b : Block)
    (hb : k.blocks u.pid = b) (hlive : k.live u = true) (h : b.WellFormed)
    (hcount : b.process.msgInfo.count < processMessageMax) :
    (∀ sender msg, (∃ b', messageAdd u sender (pure msg) false k = .ok msg (k.setBlock u.pid b') ∧
      b.Refines u.tid b' (b.queue u.tid ++ [Block.envelopeOf sender msg])) ↔
        k.NextMapped u.pid) ∧
    (∀ sender msg, (∃ b', messageAdd u sender (pure msg) true k = .ok msg (k.setBlock u.pid b') ∧
      b.Refines u.tid b' (Block.envelopeOf sender msg :: b.queue u.tid)) ↔
        k.NextMapped u.pid) ∧
    (∀ e q, b.queue u.tid = e :: q →
      (∃ b', Block.messageRemove u.tid b = .ok e b' ∧ b.Refines u.tid b' q) ∧
      Block.messagePeek u.tid b = .ok (e.sender, e.payload) b) ∧
    (∀ search q₁ e q₂, b.queue u.tid = q₁ ++ e :: q₂ → portCompare search e.sender = true →
      (∀ e' ∈ q₁, portCompare search e'.sender = false) →
      ∃ b', Block.messageFind u.tid search b = .ok true b' ∧ b.Refines u.tid b' (e :: (q₁ ++ q₂))) ∧
    (∀ search, (∀ e ∈ b.queue u.tid, portCompare search e.sender = false) →
      Block.messageFind u.tid search b = .ok false b) := by
  subst hb
  have hblock : (k.blocks u.pid).live u.tid = true := Kernel.live_block hlive
  have hadd : ∀ sender msg head, (∃ b', messageAdd u sender (pure msg) head k =
      .ok msg (k.setBlock u.pid b') ∧ (k.blocks u.pid).Refines u.tid b' (if head then
          Block.envelopeOf sender msg :: (k.blocks u.pid).queue u.tid
        else (k.blocks u.pid).queue u.tid ++ [Block.envelopeOf sender msg])) ↔
      k.NextMapped u.pid := by
    intro sender msg head
    obtain ⟨index, b', hnext, href, hadd⟩ := messageAdd_apply hlive h hcount sender msg head
    constructor
    · rintro ⟨_, hok, -⟩ i hi
      obtain rfl : index = i := Option.some.inj (hnext.symm.trans hi)
      by_contra hmapped
      rw [hadd, if_neg hmapped] at hok
      cases hok
    · intro hmapped
      exact ⟨b', hadd.trans (if_pos (hmapped index hnext)), href⟩
  refine ⟨fun sender msg => hadd sender msg false, fun sender msg => hadd sender msg true,
    fun e q hqueue => ⟨Block.messageRemove_refines h hblock hqueue,
      Block.messagePeek_refines h hblock hqueue⟩,
    fun _ _ _ _ => Block.messageFind_found h hblock, fun _ => Block.messageFind_none h hblock⟩

theorem Kernel.Sound.wellFormed (hk : k.Sound) (hin : k.threadsIn [⟨2, 0⟩] = true)
    (hlive : k.live { pid := 2, tid := 0 } = true) (hpos : ((k.blocks 2).info 0).count ≠ 0)
    (hcount : (k.blocks 2).process.msgInfo.count = ((k.blocks 2).info 0).count)
    (hcard : (k.blocks 2).usedSlots.card = ((k.blocks 2).info 0).count) :
    (k.blocks 2).WellFormed := by
  have hproc := Kernel.liveProcess_of_live hlive
  have hof : ∀ t, (k.blocks 2).live t = true → k.live { pid := 2, tid := t } = true := by
    intro t ht
    rw [Kernel.live, hproc, Bool.true_and]
    exact ht
  have hlinked : (k.blocks 2).Linked fun t => (k.blocks 2).live t = true :=
    (hk.linked 2).mono fun t ht => ⟨hof t ht, rfl⟩
  refine Block.WellFormed.of_only hlinked (fun t => ⟨fun ht => ?_, ?_⟩) hcount hpos hcard
  · have hmem := Kernel.mem_of_threadsIn hin (hof t ht)
    exact congrArg ThreadUid.tid (List.mem_singleton.mp hmem)
  · rintro rfl
    exact Kernel.live_block hlive

/-- A message of the kernel's is removed again, and there is room for another. -/
theorem first_message_refines : ∃ k₀ k b', Booted k₀ ∧
    Steps Kernel.step NoFirstWake k₀ [.ksend { pid := 2 } 7 #v[0, 0, 0]] k ∧
    (k.blocks 2).WellFormed ∧
    Block.messageRemove 0 (k.blocks 2) = .ok ((k.blocks 2).envelope 0) b' ∧
    (k.blocks 2).Refines 0 b' [] := by
  have hany : (runSettled [⟨2, 0⟩] (fun _ => 0) [0x2000] [.ksend { pid := 2 } 7 #v[0, 0, 0]]).any
      (fun k => decide (k.threadsIn [⟨2, 0⟩] = true ∧ k.live { pid := 2, tid := 0 } = true ∧
          (k.blocks 2).process.msgInfo.count = 1 ∧ ((k.blocks 2).info 0).count = 1 ∧
          (k.blocks 2).usedSlots.card = 1 ∧
          (k.blocks 2).queue 0 = [(k.blocks 2).envelope 0])) = true := by
    decide +kernel
  obtain ⟨k₀, k, hboot, hrun, hsound, hp⟩ := exists_settled_of_any hany
  obtain ⟨hin, hlive, hcount, hinfo, hcard, hqueue⟩ := of_decide_eq_true hp
  have hwell := hsound.wellFormed hin hlive (by rw [hinfo]; decide) (hcount.trans hinfo.symm)
    (hcard.trans hinfo.symm)
  obtain ⟨-, -, hremove, -⟩ := message_queue_refines_lists k { pid := 2, tid := 0 } _ rfl hlive hwell
    (by rw [hcount]; decide)
  obtain ⟨⟨b', hok, href⟩, -⟩ := hremove _ _ hqueue
  exact ⟨k₀, k, b', hboot, hrun, hwell, hok, href⟩

/-- With 160 messages in its queue a process is well-formed, and the next one is a page fault. -/
theorem add_to_full_page : ∃ k₀ k, Booted k₀ ∧
    Steps Kernel.step NoFirstWake k₀ (List.replicate 160 (.ksend { pid := 2 } 0 #v[0, 0, 0])) k ∧
    k.live { pid := 2, tid := 0 } = true ∧ (k.blocks 2).WellFormed ∧
    (k.blocks 2).process.msgInfo.count = 160 ∧ k.nextSlot 2 = some 160 ∧
    faulted (messageAdd { pid := 2, tid := 0 } .kernel
      (pure { dest := {}, code := 0, args := #v[0, 0, 0] }) false k) = true := by
  obtain ⟨k₀, k, hboot, hrun, hsound, hin, hlive, hcount, hinfo, hcard, hnext, hfault⟩ :=
    exists_full_page
  have hwell := hsound.wellFormed hin hlive (by rw [hinfo]; decide) (hcount.trans hinfo.symm)
    (hcard.trans hinfo.symm)
  exact ⟨k₀, k, hboot, hrun, hlive, hwell, hcount, hnext, hfault⟩

end Horizon
