import Horizon.Ipc.Queue
import Mathlib.Data.Finset.Card

/-!
# Horizon — the queues of a process refine independent lists

`WellFormed` is the representation invariant of the message queues of one process: proper,
disjoint chains (`Linked`), empty queues that say so, and a bitmap and a counter that
account for exactly the slots on the chains. Under it every function of `message.c` acts on the
list of one thread as the list operation it is meant to be, and leaves the lists of the other
threads alone. Whether the slot of a new message can be written is another matter
(`message_queue_refines_lists`).
-/

namespace Horizon

open StateError

namespace Block

variable {b b' : Block} {tid : Tid} {l : List Nat} {q : List Envelope} {index : Nat}

/-- The reserved slots of a process. -/
def usedSlots (b : Block) : Finset Nat :=
  (Finset.range processMessageMax).filter fun i => b.used i = true

structure WellFormed (b : Block) : Prop where
  linked : b.Linked fun t => b.live t = true
  closed : ∀ t, b.live t = true → b.Closed t
  bits : ∀ i, i ∈ b.usedSlots ↔ ∃ t, b.live t = true ∧ i ∈ b.slots t
  count : b.process.msgInfo.count = b.usedSlots.card

/-- The queue of `tid` is now `q`, and nothing else is different. -/
structure Refines (b : Block) (tid : Tid) (b' : Block) (q : List Envelope) : Prop where
  wellFormed : b'.WellFormed
  self : b'.queue tid = q
  other : ∀ t, b.live t = true → t ≠ tid → b'.queue t = b.queue t
  live : ∀ t, b'.live t = b.live t

theorem mem_usedSlots {i : Nat} : i ∈ b.usedSlots ↔ i < processMessageMax ∧ b.used i = true := by
  rw [usedSlots, Finset.mem_filter, Finset.mem_range]

theorem WellFormed.takeSlot_succeeds (h : b.WellFormed)
    (hcount : b.process.msgInfo.count < processMessageMax) :
    ∃ index, takeSlot b = .ok index (b.reserve index) ∧ index < processMessageMax ∧
      b.used index = false := by
  -- A full bitmap would have as many set bits as there are slots.
  obtain ⟨j, hj, hclear⟩ : ∃ j < processMessageMax, b.used j = false := by
    by_contra hfull
    push Not at hfull
    have hall : b.usedSlots = Finset.range processMessageMax :=
      Finset.filter_true_of_mem fun i hi => by simpa using hfull i (Finset.mem_range.mp hi)
    rw [h.count, hall, Finset.card_range] at hcount
    exact lt_irrefl _ hcount
  rw [used_eq_messageWords hj] at hclear
  obtain ⟨index, words, hfound, hle⟩ :=
    bitmapFindAndSet_isSome (lt_trans hj
      (by decide : _ < (bitmapLength processMessageMax + 1) * bitmapBits)) hclear
  have hindex := lt_of_le_of_lt hle hj
  have htake : takeSlot b = .ok index (b.reserve index) :=
    takeSlot_eq_ok.mpr ⟨hcount.le, congrArg Prod.fst hfound, hindex, rfl⟩
  exact ⟨index, htake, hindex, takeSlot_free htake⟩

/-- Rebuild the invariant after a step that changes the slots of one thread. -/
theorem WellFormed.of_step (h : b.WellFormed)
    (hstep : QueueStep (fun t => b.live t = true) tid b b' l q)
    (hbits : ∀ i ∈ b'.usedSlots, i ∈ l ∨ i ∈ b.usedSlots ∧ i ∉ b.slots tid)
    (hlive : b.live tid = true) (hcount : b'.process.msgInfo.count = b'.usedSlots.card) :
    Refines b tid b' q := by
  have hsame : ∀ t, b'.live t = b.live t := hstep.same.live
  have hon : (fun t => b'.live t = true) = fun t => b.live t = true := by
    funext t
    rw [hsame t]
  refine ⟨⟨hon ▸ hstep.linked, fun t ht => ?_, fun i => ⟨fun hi => ?_, ?_⟩, hcount⟩,
    hstep.self, hstep.other, hsame⟩
  · rw [hsame t] at ht
    exact hstep.closed t (h.closed t ht)
  · rcases hbits i hi with hil | ⟨hused, hout⟩
    · exact ⟨tid, by rw [hsame, hlive], hstep.slots ▸ hil⟩
    · obtain ⟨t, ht, hmem⟩ := (h.bits i).mp hused
      have hne : t ≠ tid := by
        rintro rfl
        exact hout hmem
      exact ⟨t, by rw [hsame, ht], by rw [hstep.otherSlots t ht hne]; exact hmem⟩
  · rintro ⟨t, ht, hmem⟩
    rw [hsame t] at ht
    exact mem_usedSlots.mpr ((hstep.linked.queued t ht).slot i hmem)

theorem usedSlots_of_used (h : b'.used = (b.reserve index).used) (hindex : index < processMessageMax) :
    b'.usedSlots = insert index b.usedSlots := by
  ext i
  simp only [usedSlots, Finset.mem_filter, Finset.mem_range, Finset.mem_insert, h, used_reserve,
    Bool.or_eq_true, decide_eq_true_eq]
  constructor
  · rintro ⟨hi, rfl | hused⟩
    · exact Or.inl rfl
    · exact Or.inr ⟨hi, hused⟩
  · rintro (rfl | ⟨hi, hused⟩)
    · exact ⟨hindex, Or.inl rfl⟩
    · exact ⟨hi, Or.inr hused⟩

/-- A slot is found, and the message that is put into it is added to the queue of the thread. -/
theorem fillSlot_refines (h : b.WellFormed)
    (hcount : b.process.msgInfo.count < processMessageMax) (hlive : b.live tid = true)
    (sender : IpcPort) (msg : Msg) (head : Bool) :
    ∃ index b', takeSlot b = .ok index (b.reserve index) ∧
      fillSlot index tid sender msg head (b.reserve index) = .ok () b' ∧
      Refines b tid b' (if head then envelopeOf sender msg :: b.queue tid
        else b.queue tid ++ [envelopeOf sender msg]) := by
  obtain ⟨index, htake, hindex, hfree⟩ := h.takeSlot_succeeds hcount
  obtain ⟨b', hfill, hfilled, hused, hcount'⟩ :=
    fillSlot_step (b := b.reserve index) (h.linked.reserve index) hlive hlive
      (fun _ => h.closed tid hlive) hindex used_reserve_self
      fun t ht => not_mem_slots_of_free h.linked hfree ht
  have hstep := hfilled.of_reserve
  have hslots := usedSlots_of_used hused hindex
  have hnew : index ∉ b.usedSlots := by simp [usedSlots, hfree]
  refine ⟨index, b', htake, hfill, h.of_step hstep (fun i hi => ?_) hlive ?_⟩
  · rw [hslots] at hi
    have hmem : i = index ∨ i ∈ b.slots tid →
        i ∈ if head then index :: b.slots tid else b.slots tid ++ [index] := by
      intro hor
      cases head <;> simpa [or_comm] using hor
    rcases Finset.mem_insert.mp hi with rfl | hi
    · exact Or.inl (hmem (Or.inl rfl))
    · by_cases hin : i ∈ b.slots tid
      · exact Or.inl (hmem (Or.inr hin))
      · exact Or.inr ⟨hi, hin⟩
  · rw [hcount', hslots, Finset.card_insert_of_notMem hnew, ← h.count]
    rfl

theorem usedSlots_release (h : b'.used = (b.release index).used) :
    b'.usedSlots = b.usedSlots.erase index := by
  ext i
  simp only [usedSlots, Finset.mem_filter, Finset.mem_range, Finset.mem_erase, h, used_release,
    Bool.and_eq_true, Bool.not_eq_true', decide_eq_false_iff_not]
  tauto

theorem messageRemove_refines {e : Envelope} (h : b.WellFormed) (hlive : b.live tid = true)
    (hqueue : b.queue tid = e :: q) :
    ∃ b', messageRemove tid b = .ok e b' ∧ Refines b tid b' q := by
  obtain ⟨index, l, hslots, rfl, rfl⟩ := List.map_eq_cons_iff.mp hqueue
  have hq := h.linked.queued tid hlive
  rw [hslots] at hq
  have hstep := popHead_step h.linked hlive hslots
  have hused : ((b.release index).popHead tid (b.messages index)).usedSlots =
      b.usedSlots.erase index := usedSlots_release rfl
  obtain ⟨hindex, hbit⟩ := hq.slot index List.mem_cons_self
  have hmem : index ∈ b.usedSlots :=
    mem_usedSlots.mpr ⟨hindex, hbit⟩
  refine ⟨_, ?_, h.of_step hstep (fun i hi => ?_) hlive ?_⟩
  · simp only [messageRemove, bind_apply, freeHead_apply hq hlive, unlinkHead_apply]
    rfl
  · rw [hused] at hi
    obtain ⟨hne, hi⟩ := Finset.mem_erase.mp hi
    rw [hslots, List.mem_cons, not_or]
    by_cases hil : i ∈ l
    · exact Or.inl hil
    · exact Or.inr ⟨hi, hne, hil⟩
  · rw [hused, Finset.card_erase_of_mem hmem, ← h.count]
    rfl

theorem messagePeek_refines {e : Envelope} (h : b.WellFormed) (hlive : b.live tid = true)
    (hqueue : b.queue tid = e :: q) : messagePeek tid b = .ok (e.sender, e.payload) b := by
  obtain ⟨index, l, hslots, rfl, rfl⟩ := List.map_eq_cons_iff.mp hqueue
  have hq := h.linked.queued tid hlive
  rw [hslots] at hq
  exact messagePeek_apply hq hlive

theorem messageFind_refines (h : b.WellFormed) (hlive : b.live tid = true) (search : IpcPort) :
    ∃ b', messageFind tid search b = .ok ((b.queue tid).any (matchesPort search)) b' ∧
      Refines b tid b' (promote (matchesPort search) (b.queue tid)) ∧
      ((b.queue tid).any (matchesPort search) = false → b' = b) := by
  obtain ⟨b', l, hfind, hstep, hmem, hproc, hnone⟩ := messageFind_step h.linked hlive hlive search
  have hused : b'.usedSlots = b.usedSlots := by
    simp only [usedSlots, used_eq (show b'.process.msgInfo.bitmap = b.process.msgInfo.bitmap by
      rw [hproc])]
  refine ⟨b', hfind, h.of_step hstep (fun i hi => ?_) hlive ?_, hnone⟩
  · rw [hused] at hi
    rw [hmem]
    by_cases hil : i ∈ b.slots tid
    · exact Or.inl hil
    · exact Or.inr ⟨hi, hil⟩
  · rw [hused, hproc, h.count]

/-- The first message that matches is brought to the front. -/
theorem messageFind_found {search : IpcPort} {q₁ q₂ : List Envelope} {e : Envelope}
    (h : b.WellFormed) (hlive : b.live tid = true) (hqueue : b.queue tid = q₁ ++ e :: q₂)
    (he : portCompare search e.sender = true)
    (hfirst : ∀ e' ∈ q₁, portCompare search e'.sender = false) :
    ∃ b', messageFind tid search b = .ok true b' ∧ Refines b tid b' (e :: (q₁ ++ q₂)) := by
  obtain ⟨b', hfind, href, -⟩ := messageFind_refines h hlive search
  have hany : (b.queue tid).any (matchesPort search) = true :=
    List.any_eq_true.mpr ⟨e, by simp [hqueue], he⟩
  rw [hany] at hfind
  rw [hqueue, promote_of_split (p := matchesPort search) he hfirst] at href
  exact ⟨b', hfind, href⟩

theorem messageFind_none {search : IpcPort} (h : b.WellFormed) (hlive : b.live tid = true)
    (hnone : ∀ e ∈ b.queue tid, portCompare search e.sender = false) :
    messageFind tid search b = .ok false b := by
  obtain ⟨b', hfind, -, hsame⟩ := messageFind_refines h hlive search
  have hany : (b.queue tid).any (matchesPort search) = false :=
    List.any_eq_false.mpr fun e he => Bool.eq_false_iff.mp (hnone e he)
  rw [hany, hsame hany] at hfind
  exact hfind

/-- A process with one live thread, whose queue has as many slots as are reserved. -/
theorem WellFormed.of_only (hlinked : b.Linked fun t => b.live t = true)
    (honly : ∀ t, b.live t = true ↔ t = 0) (hcount : b.process.msgInfo.count = (b.info 0).count)
    (hpos : (b.info 0).count ≠ 0) (hcard : b.usedSlots.card = (b.info 0).count) :
    b.WellFormed := by
  have hqueued := hlinked.queued 0 ((honly 0).mpr rfl)
  have hsub : (b.slots 0).toFinset ⊆ b.usedSlots := fun i hi =>
    mem_usedSlots.mpr (hqueued.slot i (List.mem_toFinset.mp hi))
  have heq : (b.slots 0).toFinset = b.usedSlots :=
    Finset.eq_of_subset_of_card_le hsub (by
      rw [hcard, List.toFinset_card_of_nodup hqueued.nodup, hqueued.count])
  refine ⟨hlinked, fun t ht hzero => ?_, fun i => ?_, hcount.trans hcard.symm⟩
  · rw [(honly t).mp ht] at hzero
    exact absurd hzero hpos
  · rw [← heq, List.mem_toFinset]
    refine ⟨fun hi => ⟨0, (honly 0).mpr rfl, hi⟩, ?_⟩
    rintro ⟨t, ht, hi⟩
    rwa [(honly t).mp ht] at hi

end Block

end Horizon
