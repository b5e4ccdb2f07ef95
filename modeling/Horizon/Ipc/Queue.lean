import Horizon.Lib.Chain
import Horizon.Ipc.Message

/-!
# Horizon — message queues as lists

A control block represents, for each of its threads, a list of envelopes: the slots on the
chain from `msg_info.head`, read in order. `Linked on` is the invariant that makes this
reading meaningful for the threads in `on`: every chain has as many slots as the thread
counts, ends at the tail, uses only reserved slots, and shares none with another thread.

Under it the functions of `message.c` are the list operations: append (`fillSlot_append`),
cons (`fillSlot_prepend`), tail (`messageRemove_spec`), head (`messagePeek_spec`), and moving
the first match to the front (`messageFind_spec`). Nothing is assumed about the links of an
empty queue, except where `message_add` relies on them.
-/

namespace Horizon

open StateError LinkedCells

/-- A link as a pointer to a slot. -/
def linkOf (link : Link) : Option Nat := if link = noLink then none else some link.toNat

@[simp] theorem linkOf_noLink : linkOf noLink = none := rfl

theorem linkOf_eq_none {link : Link} : linkOf link = none ↔ link = noLink := by
  unfold linkOf
  split <;> simp [*]

theorem toNat_ofNat_slot {i : Nat} (hi : i < processMessageMax) :
    (BitVec.ofNat 16 i).toNat = i := by
  simp only [processMessageMax] at hi
  rw [BitVec.toNat_ofNat]
  omega

theorem linkOf_ofNat {i : Nat} (hi : i < processMessageMax) :
    linkOf (BitVec.ofNat 16 i) = some i := by
  have hne : BitVec.ofNat 16 i ≠ noLink := by
    intro h
    have hval : i = 65535 := by
      rw [← toNat_ofNat_slot hi, h]
      rfl
    simp only [processMessageMax] at hi
    omega
  rw [linkOf, if_neg hne, toNat_ofNat_slot hi]

theorem linkOf_eq_some {link : Link} {i : Nat} (h : linkOf link = some i) :
    link ≠ noLink ∧ link.toNat = i := by
  unfold linkOf at h
  split at h
  · cases h
  · next hne => exact ⟨hne, Option.some.inj h⟩

theorem slotIndex_apply {link : Link} {b : Block} (h : link.toNat < processMessageMax) :
    slotIndex link b = .ok link.toNat b := by
  rw [slotIndex, if_pos h, pure_apply]

namespace Block

/-! ## Reading the chains -/

/-- The successor of a slot. -/
def next (b : Block) (i : Nat) : Option Nat := linkOf (b.messages i).next

/-- Is a slot reserved? -/
def used (b : Block) (i : Nat) : Bool := bitmapTest b.process.msgInfo.bitmap i

/-- The queue record of a thread. -/
def info (b : Block) (tid : Tid) : ThreadMsgInfo := (b.threads tid).msgInfo

def envelope (b : Block) (i : Nat) : Envelope := (b.messages i).toEnvelope

/-- The slots on the chain of a thread. -/
def slots (b : Block) (tid : Tid) : List Nat :=
  walk b.next (b.info tid).count (linkOf (b.info tid).head)

/-- The messages queued for a thread. -/
def queue (b : Block) (tid : Tid) : List Envelope := (b.slots tid).map b.envelope

/-- The chain of a thread is the list of slots `l`. -/
structure Queued (b : Block) (tid : Tid) (l : List Nat) : Prop where
  count : (b.info tid).count = l.length
  seg : l ≠ [] → Seg b.next (linkOf (b.info tid).head) l none
  tail : ∀ i, l.getLast? = some i → (b.info tid).tail.toNat = i
  slot : ∀ i ∈ l, i < processMessageMax ∧ b.used i = true

/-- The chains of the threads in `on` are proper lists that share no slot. -/
structure Linked (b : Block) (on : Tid → Prop) : Prop where
  queued : ∀ tid, on tid → b.Queued tid (b.slots tid)
  disjoint : ∀ t₁ t₂, on t₁ → on t₂ → t₁ ≠ t₂ → (b.slots t₁).Disjoint (b.slots t₂)

/-- The queue of a thread is not the untouched queue of a thread that never had a message:
when it is empty, its head says so. -/
def Closed (b : Block) (tid : Tid) : Prop := (b.info tid).count = 0 → (b.info tid).head = noLink

/-- Only queues differ between the two blocks. -/
structure SameExceptQueues (b b' : Block) : Prop where
  thread : ∀ t, ∃ q, b'.threads t = { b.threads t with msgInfo := q }
  process : ∃ p, b'.process = { b.process with msgInfo := p }

variable {b b' : Block} {on : Tid → Prop} {tid : Tid} {l : List Nat} {index : Nat}

theorem Queued.slots_eq (h : b.Queued tid l) : b.slots tid = l := by
  rw [slots, h.count]
  cases l with
  | nil => rfl
  | cons i l => exact (h.seg (List.cons_ne_nil i l)).walk_eq

theorem Queued.nodup (h : b.Queued tid l) : l.Nodup := by
  cases l with
  | nil => exact List.nodup_nil
  | cons i l => exact (h.seg (List.cons_ne_nil i l)).nodup

theorem Queued.length_lt (h : b.Queued tid l) : l.length < processMessageMax + 1 := by
  have hsub : l ⊆ List.range processMessageMax := fun i hi => List.mem_range.mpr (h.slot i hi).1
  have hle := (List.subperm_of_subset h.nodup hsub).length_le
  rw [List.length_range] at hle
  omega

/-- The chain of a thread only depends on its queue record and on the slots it visits. -/
theorem Queued.frame (h : b.Queued tid l) (hinfo : b'.info tid = b.info tid)
    (hnext : ∀ i ∈ l, b'.next i = b.next i) (hused : ∀ i ∈ l, b'.used i = true) :
    b'.Queued tid l where
  count := by rw [hinfo, h.count]
  seg hl := by
    rw [hinfo]
    exact (h.seg hl).frame hnext
  tail i hi := by rw [hinfo, h.tail i hi]
  slot i hi := ⟨(h.slot i hi).1, hused i hi⟩

theorem Linked.mono {on' : Tid → Prop} (h : b.Linked on) (hon : ∀ t, on' t → on t) :
    b.Linked on' where
  queued t ht := h.queued t (hon t ht)
  disjoint t₁ t₂ h₁ h₂ hne := h.disjoint t₁ t₂ (hon t₁ h₁) (hon t₂ h₂) hne

/-- What an operation on the queue of `tid` leaves behind: the slots `l` holding `q`. -/
structure QueueStep (on : Tid → Prop) (tid : Tid) (b b' : Block) (l : List Nat)
    (q : List Envelope) : Prop where
  linked : b'.Linked on
  slots : b'.slots tid = l
  self : b'.queue tid = q
  otherSlots : ∀ t, on t → t ≠ tid → b'.slots t = b.slots t
  other : ∀ t, on t → t ≠ tid → b'.queue t = b.queue t
  closed : ∀ t, b.Closed t → b'.Closed t
  same : SameExceptQueues b b'

theorem QueueStep.refl (h : b.Linked on) : QueueStep on tid b b (b.slots tid) (b.queue tid) :=
  ⟨h, rfl, rfl, fun _ _ _ => rfl, fun _ _ _ => rfl, fun _ ht => ht,
    fun t => ⟨(b.threads t).msgInfo, rfl⟩, _, rfl⟩

/-- Replace the chain of one thread: the slots of the other chains keep their links, their
reservation and their contents. -/
theorem Linked.replace (h : b.Linked on) (hself : b'.Queued tid l)
    (hinfo : ∀ t, t ≠ tid → b'.info t = b.info t) (hkeep : ∀ t, on t → t ≠ tid → ∀ i ∈ b.slots t,
      b'.next i = b.next i ∧ b'.used i = true ∧ b'.envelope i = b.envelope i)
    (hdisj : ∀ t, on t → t ≠ tid → l.Disjoint (b.slots t))
    (hclosed : b.Closed tid → b'.Closed tid) (hsame : SameExceptQueues b b') :
    QueueStep on tid b b' l (l.map b'.envelope) := by
  -- The chains of the other threads are where they were.
  have hother : ∀ t, on t → t ≠ tid → b'.Queued t (b.slots t) := fun t ht hne =>
    (h.queued t ht).frame (hinfo t hne) (fun i hi => (hkeep t ht hne i hi).1)
      fun i hi => (hkeep t ht hne i hi).2.1
  have hslots : ∀ t, on t → t ≠ tid → b'.slots t = b.slots t := fun t ht hne =>
    (hother t ht hne).slots_eq
  refine ⟨⟨fun t ht => ?_, fun t₁ t₂ h₁ h₂ hne => ?_⟩, hself.slots_eq, ?_, hslots,
    fun t ht hne => ?_, fun t ht => ?_, hsame⟩
  · by_cases hne : t = tid
    · subst hne
      rw [hself.slots_eq]
      exact hself
    · rw [hslots t ht hne]
      exact hother t ht hne
  · by_cases ht₁ : t₁ = tid
    · subst ht₁
      rw [hself.slots_eq, hslots t₂ h₂ hne.symm]
      exact hdisj t₂ h₂ hne.symm
    · rw [hslots t₁ h₁ ht₁]
      by_cases ht₂ : t₂ = tid
      · subst ht₂
        rw [hself.slots_eq]
        exact (hdisj t₁ h₁ ht₁).symm
      · rw [hslots t₂ h₂ ht₂]
        exact h.disjoint t₁ t₂ h₁ h₂ hne
  · rw [queue, hself.slots_eq]
  · rw [queue, queue, hslots t ht hne]
    exact List.map_congr_left fun i hi => (hkeep t ht hne i hi).2.2
  · by_cases hne : t = tid
    · subst hne
      exact hclosed ht
    · rw [Closed, hinfo t hne]
      exact ht

/-! ## Field updates -/

section Fields

variable {m : Message} {link : Link} {q : ThreadMsgInfo} {p : ProcessMsgInfo} {i : Nat}

@[simp] theorem next_setMessage :
    (b.setMessage i m).next = Function.update b.next i (linkOf m.next) := by
  funext j
  by_cases h : j = i
  · subst h
    simp [next, setMessage]
  · simp [next, setMessage, h]

@[simp] theorem next_setNext : (b.setNext i link).next = Function.update b.next i (linkOf link) :=
  next_setMessage

@[simp] theorem next_setMsgInfo : (b.setMsgInfo tid q).next = b.next := rfl

@[simp] theorem next_setProcessMsgInfo : (b.setProcessMsgInfo p).next = b.next := rfl

@[simp] theorem envelope_setMessage :
    (b.setMessage i m).envelope = Function.update b.envelope i m.toEnvelope := by
  funext j
  by_cases h : j = i
  · subst h
    simp [envelope, setMessage]
  · simp [envelope, setMessage, h]

@[simp] theorem envelope_setNext : (b.setNext i link).envelope = b.envelope := by
  rw [setNext, envelope_setMessage]
  exact Function.update_eq_self i b.envelope

@[simp] theorem envelope_setMsgInfo : (b.setMsgInfo tid q).envelope = b.envelope := rfl

@[simp] theorem envelope_setProcessMsgInfo : (b.setProcessMsgInfo p).envelope = b.envelope := rfl

@[simp] theorem info_setMessage : (b.setMessage i m).info = b.info := rfl

@[simp] theorem info_setNext : (b.setNext i link).info = b.info := rfl

@[simp] theorem info_setMsgInfo : (b.setMsgInfo tid q).info = Function.update b.info tid q := by
  funext t
  by_cases h : t = tid
  · subst h
    simp [info, setMsgInfo, setThread]
  · simp [info, setMsgInfo, setThread, h]

@[simp] theorem info_setProcessMsgInfo : (b.setProcessMsgInfo p).info = b.info := rfl

end Fields

namespace SameExceptQueues

variable {b'' : Block}

theorem refl (b : Block) : SameExceptQueues b b := ⟨fun t => ⟨(b.threads t).msgInfo, rfl⟩, _, rfl⟩

theorem trans (h₁ : SameExceptQueues b b') (h₂ : SameExceptQueues b' b'') :
    SameExceptQueues b b'' := by
  refine ⟨fun t => ?_, ?_⟩
  · obtain ⟨q₁, hq₁⟩ := h₁.thread t
    obtain ⟨q₂, hq₂⟩ := h₂.thread t
    exact ⟨q₂, by rw [hq₂, hq₁]⟩
  · obtain ⟨p₁, hp₁⟩ := h₁.process
    obtain ⟨p₂, hp₂⟩ := h₂.process
    exact ⟨p₂, by rw [hp₂, hp₁]⟩

theorem setMessage (h : SameExceptQueues b b') (i : Nat) (m : Message) :
    SameExceptQueues b (b'.setMessage i m) := ⟨h.thread, h.process⟩

theorem setMsgInfo (h : SameExceptQueues b b') (tid : Tid) (q : ThreadMsgInfo) :
    SameExceptQueues b (b'.setMsgInfo tid q) := by
  refine ⟨fun t => ?_, h.process⟩
  obtain ⟨q', hq'⟩ := h.thread t
  by_cases ht : t = tid
  · subst ht
    exact ⟨q, by simp [Block.setMsgInfo, setThread, hq']⟩
  · exact ⟨q', by simp [Block.setMsgInfo, setThread, ht, hq']⟩

theorem setProcessMsgInfo (h : SameExceptQueues b b') (p : ProcessMsgInfo) :
    SameExceptQueues b (b'.setProcessMsgInfo p) := by
  refine ⟨h.thread, p, ?_⟩
  obtain ⟨p', hp'⟩ := h.process
  simp [Block.setProcessMsgInfo, hp']

theorem live (h : SameExceptQueues b b') (t : Tid) : b'.live t = b.live t := by
  obtain ⟨p, hp⟩ := h.process
  rw [Block.live, hp, Block.live]

section Kernel

variable {k : Kernel} {pid : Pid} (h : SameExceptQueues (k.blocks pid) b)
include h

theorem thread_setBlock (u : ThreadUid) :
    ∃ q, (k.setBlock pid b).thread u = { k.thread u with msgInfo := q } := by
  rw [Kernel.thread, Kernel.thread, Kernel.blocks_setBlock]
  split
  · next hu =>
    rw [hu]
    exact h.thread u.tid
  · exact ⟨_, rfl⟩

theorem process_setBlock (p : Pid) :
    ∃ m, ((k.setBlock pid b).blocks p).process = { (k.blocks p).process with msgInfo := m } := by
  rw [Kernel.blocks_setBlock]
  split
  · next hp =>
    rw [hp]
    exact h.process
  · exact ⟨_, rfl⟩

theorem live_setBlock (u : ThreadUid) : (k.setBlock pid b).live u = k.live u := by
  obtain ⟨m, hm⟩ := h.process_setBlock u.pid
  rw [Kernel.live, Block.live, hm, Kernel.live, Block.live]
  rfl

end Kernel

end SameExceptQueues

instance : Std.Refl SameExceptQueues := ⟨.refl⟩

instance : IsTrans Block SameExceptQueues := ⟨fun _ _ _ => .trans⟩

/-! ## Adding a message -/

theorem assertLive_apply (h : b.live tid = true) : assertLive tid b = .ok () b := by
  simp only [assertLive, bind_apply, get_apply, h, if_true, pure_apply]

/-- The block after a slot has been reserved. -/
def reserve (b : Block) (index : Nat) : Block :=
  b.setProcessMsgInfo
    { b.process.msgInfo with bitmap := bitmapSet b.process.msgInfo.bitmap index }

theorem used_reserve (j : Nat) : (b.reserve index).used j = (decide (j = index) || b.used j) :=
  bitmapTest_bitmapSet _ _ _

theorem used_reserve_self : (b.reserve index).used index = true := by
  rw [used_reserve, decide_eq_true rfl, Bool.true_or]

theorem messageWords_eq {i : Nat} (hi : i < bitmapLength processMessageMax) (p : Process) :
    p.messageWords i = p.msgInfo.bitmap i := if_pos hi

theorem word_lt_length (hindex : index < processMessageMax) :
    index / 32 < bitmapLength processMessageMax := by
  simp only [processMessageMax, bitmapLength, bitmapBits] at *
  omega

theorem used_eq_messageWords (hindex : index < processMessageMax) :
    b.used index = bitmapTest b.process.messageWords index :=
  (bitmapTest_of_agree (fun _ hi => messageWords_eq hi _) (word_lt_length hindex)).symm

theorem takeSlot_eq_ok : takeSlot b = .ok index b' ↔
      b.process.msgInfo.count ≤ processMessageMax ∧
      (bitmapFindAndSet b.process.messageWords processMessageMax).1 = some index ∧
      index < processMessageMax ∧ b' = b.reserve index := by
  have hreserve : index < processMessageMax →
      (bitmapFindAndSet b.process.messageWords processMessageMax).1 = some index →
      b.setProcessMsgInfo
        { b.process.msgInfo with
          bitmap := fun i =>
            if i < bitmapLength processMessageMax then
              (bitmapFindAndSet b.process.messageWords processMessageMax).2 i
            else b.process.msgInfo.bitmap i } = b.reserve index := by
    intro hindex hfound
    simp only [(bitmapFindAndSet_eq_some (Prod.ext hfound rfl)).2,
      bitmapSet_of_agree (fun _ hi => messageWords_eq hi _) (word_lt_length hindex), reserve]
  simp only [takeSlot, bind_eq_ok, get_eq_ok, orThrow_eq_ok, modify_eq_ok, pure_eq_ok]
  constructor
  · intro h
    simp at h
    obtain ⟨hcount, hfound, hindex, rfl⟩ := h
    exact ⟨hcount, hfound, hindex, hreserve hindex hfound⟩
  · rintro ⟨hcount, hfound, hindex, rfl⟩
    simp [hcount, hfound, hindex, hreserve hindex hfound]

theorem takeSlot_free (h : takeSlot b = .ok index b') : b.used index = false := by
  obtain ⟨-, hfound, hindex, -⟩ := takeSlot_eq_ok.mp h
  rw [used_eq_messageWords hindex]
  exact (bitmapFindAndSet_eq_some (Prod.ext hfound rfl)).1

theorem Linked.reserve (h : b.Linked on) (index : Nat) : (b.reserve index).Linked on where
  queued t ht := (h.queued t ht).frame rfl (fun _ _ => rfl) fun i hi => by
    rw [used_reserve, ((h.queued t ht).slot i hi).2, Bool.or_true]
  disjoint t₁ t₂ h₁ h₂ hne := h.disjoint t₁ t₂ h₁ h₂ hne

theorem not_mem_slots_of_free (h : b.Linked on) (hfree : b.used index = false) {t : Tid}
    (ht : on t) : index ∉ b.slots t := fun hmem => by
  have hused := ((h.queued t ht).slot index hmem).2
  rw [hfree] at hused
  cases hused

section Fill

variable {sender : IpcPort} {msg : Msg}

/-- Linking a slot in front of the queue. -/
def pushFront (b : Block) (index : Nat) (tid : Tid) (e : Envelope) : Block :=
  ((b.setMessage index { e with next := (b.info tid).head }).setMsgInfo tid
    { count := (b.info tid).count + 1
      head := BitVec.ofNat 16 index
      tail := if (b.info tid).count = 0 then BitVec.ofNat 16 index
        else (b.info tid).tail }).setProcessMsgInfo
    { b.process.msgInfo with count := b.process.msgInfo.count + 1 }

/-- Linking a slot behind the queue. -/
def pushBack (b : Block) (index : Nat) (tid : Tid) (e : Envelope) : Block :=
  let linked := if (b.info tid).count = 0 then b
    else b.setNext (b.info tid).tail.toNat (BitVec.ofNat 16 index)
  ((linked.setMessage index { e with next := noLink }).setMsgInfo tid
    { count := (b.info tid).count + 1
      head := if (b.info tid).count = 0 then BitVec.ofNat 16 index else (b.info tid).head
      tail := BitVec.ofNat 16 index }).setProcessMsgInfo
    { b.process.msgInfo with count := b.process.msgInfo.count + 1 }

theorem fillSlot_true (h : b.live tid = true) : fillSlot index tid sender msg true b =
      .ok () (b.pushFront index tid (envelopeOf sender msg)) := by
  have hlive : ∀ m, (b.setMessage index m).live tid = true := fun _ => h
  simp only [fillSlot, bind_apply, modify_apply, get_apply, assertLive_apply (hlive _), if_true]
  simp [pushFront, setMessage, setMsgInfo, setNext, setThread, setProcessMsgInfo, info]
  rfl

theorem fillSlot_false (h : b.live tid = true)
    (htail : (b.info tid).count ≠ 0 → (b.info tid).tail.toNat < processMessageMax ∧
      (b.info tid).tail.toNat ≠ index) : fillSlot index tid sender msg false b =
      .ok () (b.pushBack index tid (envelopeOf sender msg)) := by
  have hlive : ∀ m, (b.setMessage index m).live tid = true := fun _ => h
  by_cases hcount : (b.info tid).count = 0
  · simp only [fillSlot, bind_apply, modify_apply, get_apply, assertLive_apply (hlive _)]
    simp only [info] at hcount
    simp [pushBack, setMessage, setMsgInfo, setNext, setThread, setProcessMsgInfo, info, hcount,
      bind_apply, modify_apply]
  · obtain ⟨hlt, hne⟩ := htail hcount
    simp only [fillSlot, bind_apply, modify_apply, get_apply, assertLive_apply (hlive _)]
    simp only [info] at hcount hlt hne
    simp [pushBack, setMessage, setMsgInfo, setNext, setThread, setProcessMsgInfo, info, hcount,
      bind_apply, modify_apply, slotIndex_apply, hlt]
    rw [Function.update_of_ne hne, Function.update_of_ne hne.symm, Function.update_self,
      Function.update_comm hne.symm, Function.update_idem]

end Fill

variable {e : Envelope}

theorem used_eq (hp : b'.process.msgInfo.bitmap = b.process.msgInfo.bitmap) : b'.used = b.used := by
  funext i
  rw [used, used, hp]

theorem Queued.count_ne_zero (h : b.Queued tid l) (hl : l ≠ []) : (b.info tid).count ≠ 0 := by
  rw [h.count]
  exact fun h0 => hl (List.eq_nil_of_length_eq_zero h0)

theorem Queued.count_eq_zero (h : b.Queued tid []) : (b.info tid).count = 0 := h.count

theorem Queued.tail_mem (h : b.Queued tid l) (hcount : (b.info tid).count ≠ 0) :
    (b.info tid).tail.toNat ∈ l := by
  rcases hlast : l.getLast? with _ | last
  · rw [List.getLast?_eq_none_iff] at hlast
    subst hlast
    exact absurd h.count_eq_zero hcount
  · rw [h.tail last hlast]
    exact List.mem_of_getLast? hlast

/-- Give one thread a chain made of its old slots and a fresh one. -/
theorem Linked.insert (h : b.Linked on) (hon : on tid) (hfresh : ∀ t, on t → index ∉ b.slots t)
    (hself : b'.Queued tid l) (hmem : ∀ i ∈ l, i = index ∨ i ∈ b.slots tid) (hl : l ≠ [])
    (hinfo : ∀ t, t ≠ tid → b'.info t = b.info t)
    (hnext : ∀ i, i ≠ index → i ∉ b.slots tid → b'.next i = b.next i)
    (henv : b'.envelope = Function.update b.envelope index e) (hused : b'.used = b.used)
    (hsame : SameExceptQueues b b') :
    QueueStep on tid b b' l (l.map (Function.update b.envelope index e)) := by
  rw [← henv]
  have hout : ∀ t, on t → t ≠ tid → ∀ i ∈ b.slots t, i ≠ index ∧ i ∉ b.slots tid := by
    intro t ht hne i hi
    exact ⟨fun hii => hfresh t ht (hii ▸ hi), fun hit => h.disjoint tid t hon ht hne.symm hit hi⟩
  refine h.replace hself hinfo (fun t ht hne i hi => ?_) (fun t ht hne i hi hit => ?_)
    (fun _ hcount => absurd hcount (hself.count_ne_zero hl)) hsame
  · obtain ⟨hindex, hslots⟩ := hout t ht hne i hi
    rw [hnext i hindex hslots, henv, Function.update_of_ne hindex, hused]
    exact ⟨rfl, ((h.queued t ht).slot i hi).2, rfl⟩
  · obtain ⟨hindex, hslots⟩ := hout t ht hne i hit
    exact (hmem i hi).elim hindex hslots

/-- The contents of the old slots of a queue, read after a fresh slot has been filled. -/
theorem map_update_envelope (hfresh : index ∉ b.slots tid) :
    (b.slots tid).map (Function.update b.envelope index e) = b.queue tid :=
  List.map_congr_left fun i hi => by
    have hne : i ≠ index := fun hii => hfresh (hii ▸ hi)
    rw [Function.update_of_ne hne]

theorem pushFront_step (h : b.Linked on) (hon : on tid) (hclosed : b.Closed tid)
    (hindex : index < processMessageMax) (hused : b.used index = true)
    (hfresh : ∀ t, on t → index ∉ b.slots t) :
    QueueStep on tid b (b.pushFront index tid e) (index :: b.slots tid) (e :: b.queue tid) := by
  have hq := h.queued tid hon
  have hnext : (b.pushFront index tid e).next =
      Function.update b.next index (linkOf (b.info tid).head) := by simp [pushFront]
  have hinfo : (b.pushFront index tid e).info = Function.update b.info tid
      { count := (b.info tid).count + 1
        head := BitVec.ofNat 16 index
        tail := if (b.info tid).count = 0 then BitVec.ofNat 16 index
          else (b.info tid).tail } := by simp [pushFront]
  have huse : (b.pushFront index tid e).used = b.used := used_eq rfl
  have henv : (b.pushFront index tid e).envelope = Function.update b.envelope index e := by
    simp [pushFront]
  -- The old chain, also when it is empty: this is where `Closed` is needed.
  have hseg : Seg b.next (linkOf (b.info tid).head) (b.slots tid) none := by
    by_cases hnil : b.slots tid = []
    · rw [hnil] at hq ⊢
      rw [hclosed hq.count_eq_zero]
      rfl
    · exact hq.seg hnil
  have hself : (b.pushFront index tid e).Queued tid (index :: b.slots tid) := by
    refine ⟨?_, fun _ => ?_, fun i hi => ?_, fun i hi => ?_⟩
    · rw [hinfo, Function.update_self, List.length_cons, hq.count]
    · rw [hinfo, Function.update_self, hnext, linkOf_ofNat hindex]
      exact hseg.push (hfresh tid hon)
    · rw [hinfo, Function.update_self]
      by_cases hnil : b.slots tid = []
      · rw [hnil] at hq hi
        rw [List.getLast?_singleton, Option.some.injEq] at hi
        rw [if_pos hq.count_eq_zero, toNat_ofNat_slot hindex, hi]
      · rw [List.getLast?_cons_of_ne_nil hnil] at hi
        rw [if_neg (hq.count_ne_zero hnil)]
        exact hq.tail i hi
    · rw [huse]
      rcases List.mem_cons.mp hi with rfl | hi
      · exact ⟨hindex, hused⟩
      · exact hq.slot i hi
  have hstep := h.insert hon hfresh hself (fun i hi => List.mem_cons.mp hi)
    (List.cons_ne_nil _ _) (fun t ht => by rw [hinfo, Function.update_of_ne ht])
    (fun i hi _ => by rw [hnext, Function.update_of_ne hi]) henv huse
    (((SameExceptQueues.refl b).setMessage _ _).setMsgInfo _ _ |>.setProcessMsgInfo _)
  rwa [List.map_cons, Function.update_self, map_update_envelope (hfresh tid hon)] at hstep

/-- Appending a reserved slot to one chain: its old last slot, if any, now links to it. -/
theorem pushBack_step (h : b.Linked on) (hon : on tid)
    (hindex : index < processMessageMax) (hused : b.used index = true)
    (hfresh : ∀ t, on t → index ∉ b.slots t) :
    QueueStep on tid b (b.pushBack index tid e) (b.slots tid ++ [index]) (b.queue tid ++ [e]) := by
  have hq := h.queued tid hon
  have hinfo : (b.pushBack index tid e).info = Function.update b.info tid
      { count := (b.info tid).count + 1
        head := if (b.info tid).count = 0 then BitVec.ofNat 16 index else (b.info tid).head
        tail := BitVec.ofNat 16 index } := by
    unfold pushBack
    split <;> simp
  have huse : (b.pushBack index tid e).used = b.used := by
    unfold pushBack
    split <;> exact used_eq rfl
  have henv : (b.pushBack index tid e).envelope = Function.update b.envelope index e := by
    unfold pushBack
    split <;> simp
  have hsame : SameExceptQueues b (b.pushBack index tid e) := by
    unfold pushBack
    refine ((SameExceptQueues.setMessage ?_ _ _).setMsgInfo _ _).setProcessMsgInfo _
    split
    · exact .refl b
    · exact (SameExceptQueues.refl b).setMessage _ _
  -- With an empty chain the slot becomes the head, else the tail links to it.
  have hseg : Seg (b.pushBack index tid e).next (linkOf ((b.pushBack index tid e).info tid).head)
      (b.slots tid ++ [index]) none ∧
      ∀ i, i ≠ index → i ∉ b.slots tid → (b.pushBack index tid e).next i = b.next i := by
    rw [hinfo, Function.update_self]
    rcases List.eq_nil_or_concat (b.slots tid) with hnil | ⟨l, t, hl⟩
    · rw [hnil] at hq ⊢
      have hnext : (b.pushBack index tid e).next = Function.update b.next index none := by
        simp [pushBack, hq.count_eq_zero]
      rw [hnext, if_pos hq.count_eq_zero, linkOf_ofNat hindex]
      exact ⟨⟨rfl, Function.update_self ..⟩, fun i hi _ => Function.update_of_ne hi _ _⟩
    · rw [List.concat_eq_append] at hl
      have hne : b.slots tid ≠ [] := by simp [hl]
      have htail : (b.info tid).tail.toNat = t := hq.tail t (by simp [hl])
      have hnext : (b.pushBack index tid e).next =
          Function.update (Function.update b.next t (some index)) index none := by
        simp [pushBack, hq.count_ne_zero hne, htail, linkOf_ofNat hindex]
      rw [hnext, if_neg (hq.count_ne_zero hne), hl]
      have hold := hq.seg hne
      have hout := hfresh tid hon
      rw [hl] at hold hout
      refine ⟨hold.snoc hout, fun i hi hil => ?_⟩
      have hit : i ≠ t := fun hit => hil (by simp [hit])
      rw [Function.update_of_ne hi, Function.update_of_ne hit]
  have hself : (b.pushBack index tid e).Queued tid (b.slots tid ++ [index]) := by
    refine ⟨?_, fun _ => hseg.1, fun i hi => ?_, fun i hi => ?_⟩
    · rw [hinfo, Function.update_self, List.length_append, hq.count]
      rfl
    · rw [List.getLast?_append, List.getLast?_singleton, Option.some_or, Option.some.injEq] at hi
      rw [hinfo, Function.update_self, toNat_ofNat_slot hindex, hi]
    · rw [huse]
      rcases List.mem_append.mp hi with hi | hi
      · exact hq.slot i hi
      · rw [List.mem_singleton] at hi
        exact hi ▸ ⟨hindex, hused⟩
  have hstep := h.insert hon hfresh hself
    (fun i hi => (List.mem_append.mp hi).symm.imp_left List.mem_singleton.mp) (by simp)
    (fun t ht => by rw [hinfo, Function.update_of_ne ht]) hseg.2 henv huse hsame
  rwa [List.map_append, map_update_envelope (hfresh tid hon), List.map_singleton,
    Function.update_self] at hstep

/-- Reserving the slot first makes no difference to the queues. -/
theorem QueueStep.of_reserve {q : List Envelope}
    (h : QueueStep on tid (b.reserve index) b' l q) : QueueStep on tid b b' l q where
  linked := h.linked
  slots := h.slots
  otherSlots := h.otherSlots
  self := h.self
  other := h.other
  closed := h.closed
  same := ((SameExceptQueues.refl b).setProcessMsgInfo _).trans h.same

/-- Filling a reserved slot is an append, or a cons if `head`. -/
theorem fillSlot_step {sender : IpcPort} {msg : Msg} {head : Bool} (h : b.Linked on)
    (hon : on tid) (hlive : b.live tid = true) (hclosed : head = true → b.Closed tid)
    (hindex : index < processMessageMax) (hused : b.used index = true)
    (hfresh : ∀ t, on t → index ∉ b.slots t) :
    ∃ b', fillSlot index tid sender msg head b = .ok () b' ∧
      QueueStep on tid b b' (if head then index :: b.slots tid else b.slots tid ++ [index])
        (if head then envelopeOf sender msg :: b.queue tid
          else b.queue tid ++ [envelopeOf sender msg]) ∧
      b'.used = b.used ∧ b'.process.msgInfo.count = b.process.msgInfo.count + 1 := by
  cases head with
  | true =>
    refine ⟨_, fillSlot_true hlive, ?_, used_eq rfl, rfl⟩
    exact pushFront_step h hon (hclosed rfl) hindex hused hfresh
  | false =>
    have htail : (b.info tid).count ≠ 0 → (b.info tid).tail.toNat < processMessageMax ∧
        (b.info tid).tail.toNat ≠ index := by
      intro hcount
      have hq := h.queued tid hon
      have hmem := hq.tail_mem hcount
      exact ⟨(hq.slot _ hmem).1, fun hii => hfresh tid hon (hii ▸ hmem)⟩
    refine ⟨_, fillSlot_false hlive htail, ?_, ?_, ?_⟩
    · exact pushBack_step h hon hindex hused hfresh
    · unfold pushBack
      split <;> exact used_eq rfl
    · unfold pushBack
      split <;> rfl

/-! ## Removing a message -/

/-- The block after a slot has been freed. -/
def release (b : Block) (index : Nat) : Block :=
  b.setProcessMsgInfo
    { b.process.msgInfo with bitmap := bitmapClear b.process.msgInfo.bitmap index }

theorem used_release (j : Nat) : (b.release index).used j = (!decide (j = index) && b.used j) :=
  bitmapTest_bitmapClear _ _ _

theorem Linked.release (h : b.Linked on) (hout : ∀ t, on t → index ∉ b.slots t) :
    (b.release index).Linked on where
  queued t ht := (h.queued t ht).frame rfl (fun _ _ => rfl) fun i hi => by
    have hne : i ≠ index := fun hii => hout t ht (hii ▸ hi)
    rw [used_release, decide_eq_false hne, ((h.queued t ht).slot i hi).2]
    rfl
  disjoint t₁ t₂ h₁ h₂ hne := h.disjoint t₁ t₂ h₁ h₂ hne

theorem Queued.head_eq (h : b.Queued tid (index :: l)) : (b.info tid).head.toNat = index :=
  (linkOf_eq_some (h.seg (List.cons_ne_nil index l)).1).2

theorem freeHead_apply (h : b.Queued tid (index :: l)) (hlive : b.live tid = true) :
    freeHead tid b = .ok (b.messages index) (b.release index) := by
  have hhead := h.head_eq
  have hcount := h.count_ne_zero (List.cons_ne_nil index l)
  have hlt := (h.slot index List.mem_cons_self).1
  rw [← hhead] at hlt
  simp only [info] at hhead hcount hlt
  simp only [freeHead, bind_apply, assertLive_apply hlive, get_apply, failIf_neg hcount, pure_apply,
    slotIndex_apply hlt, modify_apply, hhead]
  rfl

/-- Taking the head off the queue. -/
def popHead (b : Block) (tid : Tid) (source : Message) : Block :=
  (b.setMsgInfo tid
    { count := (b.info tid).count - 1, head := source.next,
      tail := (b.info tid).tail }).setProcessMsgInfo
    { b.process.msgInfo with count := b.process.msgInfo.count - 1 }

/-- `head` is unsigned, so the comparison with `-1` never succeeds: the tail stays. -/
theorem unlinkHead_apply (source : Message) :
    unlinkHead tid source b = .ok () (b.popHead tid source) := by
  have hne : ¬ ((source.next.toNat : Int) = -1) := by omega
  simp only [unlinkHead, bind_apply, modify_apply, if_neg hne]
  rfl

/-- Taking the head off one chain leaves the others, and every other reservation, alone. -/
theorem popHead_step (h : b.Linked on) (hon : on tid) (hslots : b.slots tid = index :: l) :
    QueueStep on tid b ((b.release index).popHead tid (b.messages index)) l
      (l.map b.envelope) := by
  have hq := h.queued tid hon
  rw [hslots] at hq
  have hseg := (hq.seg (List.cons_ne_nil index l)).2
  have hnodup := hq.nodup
  have hinfo : ((b.release index).popHead tid (b.messages index)).info =
      Function.update b.info tid
        { count := (b.info tid).count - 1
          head := (b.messages index).next
          tail := (b.info tid).tail } := by simp [popHead, release]
  have huse : ∀ i, i ≠ index → b.used i = true →
      ((b.release index).popHead tid (b.messages index)).used i = true := by
    intro i hi hused
    show (b.release index).used i = true
    rw [used_release, decide_eq_false hi, hused]
    rfl
  have hself : ((b.release index).popHead tid (b.messages index)).Queued tid l := by
    refine ⟨?_, fun _ => ?_, fun i hi => ?_, fun i hi => ?_⟩
    · rw [hinfo, Function.update_self, hq.count, List.length_cons, Nat.add_sub_cancel]
    · rw [hinfo, Function.update_self]
      exact hseg
    · rw [hinfo, Function.update_self]
      refine hq.tail i ?_
      rw [List.getLast?_cons, hi]
      rfl
    · have hne : i ≠ index := fun hii => (List.nodup_cons.mp hnodup).1 (hii ▸ hi)
      obtain ⟨hlt, hused⟩ := hq.slot i (List.mem_cons_of_mem index hi)
      exact ⟨hlt, huse i hne hused⟩
  refine h.replace hself (fun t ht => ?_) (fun t ht hne i hi => ?_) (fun t ht hne => ?_)
    (fun _ hcount => ?_) ?_
  · rw [hinfo, Function.update_of_ne ht]
  · -- The released slot is on no other chain.
    have hii : i ≠ index := by
      rintro rfl
      exact h.disjoint tid t hon ht hne.symm (hslots ▸ List.mem_cons_self) hi
    exact ⟨rfl, huse i hii ((h.queued t ht).slot i hi).2, rfl⟩
  · have hdisj := h.disjoint tid t hon ht hne.symm
    rw [hslots] at hdisj
    exact (List.disjoint_cons_left.mp hdisj).2
  · -- The chain is empty now: the link of its last slot was `-1`.
    rw [hself.count] at hcount
    obtain rfl := List.eq_nil_of_length_eq_zero hcount
    rw [hinfo, Function.update_self]
    exact linkOf_eq_none.mp hseg
  · exact (((SameExceptQueues.refl b).setProcessMsgInfo _).setMsgInfo _ _).setProcessMsgInfo _

theorem messagePeek_apply (h : b.Queued tid (index :: l)) (hlive : b.live tid = true) :
    messagePeek tid b = .ok ((b.envelope index).sender, (b.envelope index).payload) b := by
  have hhead := h.head_eq
  have hcount := h.count_ne_zero (List.cons_ne_nil index l)
  have hlt := (h.slot index List.mem_cons_self).1
  rw [← hhead] at hlt
  simp only [info] at hhead hcount hlt
  simp only [messagePeek, bind_apply, assertLive_apply hlive, get_apply, failIf_neg hcount, pure_apply,
    slotIndex_apply hlt, hhead]
  rfl

/-! ## Searching a queue -/

/-- Move the first element that satisfies `p`, if there is one, to the front. -/
def promote (p : Envelope → Bool) (q : List Envelope) : List Envelope :=
  match q.find? p with
  | some e => e :: q.eraseP p
  | none => q

/-- Would a search for `port` stop at this message? -/
def matchesPort (port : IpcPort) (e : Envelope) : Bool := portCompare port e.sender

/-- What the search loop finds on a chain: the first match and the slot before it. -/
def locate (b : Block) (search : IpcPort) (prev : Link) : List Nat → Option (Link × Link)
  | [] => none
  | i :: l =>
      if matchesPort search (b.envelope i) then some (prev, BitVec.ofNat 16 i)
      else locate b search (BitVec.ofNat 16 i) l

variable {search : IpcPort}

/-- On a proper chain the loop ends and inspects only slots of the chain. -/
theorem findFrom_apply {fuel : Nat} {prev curr : Link} (hseg : Seg b.next (linkOf curr) l none)
    (hslot : ∀ i ∈ l, i < processMessageMax) (hfuel : l.length < fuel) :
    findFrom search fuel prev curr b = .ok (b.locate search prev l) b := by
  induction l generalizing fuel prev curr with
  | nil =>
    obtain ⟨fuel, rfl⟩ := Nat.exists_eq_succ_of_ne_zero (Nat.ne_of_gt hfuel)
    rw [findFrom, if_pos (linkOf_eq_none.mp hseg)]
    rfl
  | cons i l ih =>
    obtain ⟨fuel, rfl⟩ := Nat.exists_eq_succ_of_ne_zero (Nat.ne_of_gt (Nat.zero_lt_of_lt hfuel))
    obtain ⟨hne, htoNat⟩ := linkOf_eq_some hseg.1
    have hlt : curr.toNat < processMessageMax := htoNat ▸ hslot i List.mem_cons_self
    have hcurr : curr = BitVec.ofNat 16 i := by rw [← htoNat, BitVec.ofNat_toNat, BitVec.setWidth_eq]
    rw [findFrom, if_neg hne]
    simp only [bind_apply, slotIndex_apply hlt, get_apply, htoNat]
    unfold locate
    by_cases hmatch : matchesPort search (b.envelope i) = true
    · rw [if_pos hmatch, if_pos (show portCompare search (b.messages i).sender = true from hmatch),
        hcurr]
      rfl
    · rw [if_neg hmatch,
        if_neg (show ¬ portCompare search (b.messages i).sender = true from hmatch), hcurr]
      rw [List.length_cons] at hfuel
      exact ih hseg.2 (fun j hj => hslot j (List.mem_cons_of_mem i hj)) (by omega)

theorem locate_eq_none {prev : Link} (h : b.locate search prev l = none) :
    ∀ i ∈ l, matchesPort search (b.envelope i) = false := by
  induction l generalizing prev with
  | nil => simp
  | cons i l ih =>
    unfold locate at h
    split at h
    · cases h
    · next hmatch =>
      simp only [List.mem_cons, forall_eq_or_imp]
      exact ⟨Bool.eq_false_iff.mpr hmatch, ih h⟩

/-- A match either heads the chain, or the slot before it is on the chain too. -/
theorem locate_eq_some {prev p c : Link} (h : b.locate search prev l = some (p, c)) :
    ∃ l₁ i l₂, l = l₁ ++ i :: l₂ ∧ c = BitVec.ofNat 16 i ∧
      matchesPort search (b.envelope i) = true ∧
      (∀ j ∈ l₁, matchesPort search (b.envelope j) = false) ∧
      (l₁ = [] ∧ p = prev ∨ ∃ l₀ j, l₁ = l₀ ++ [j] ∧ p = BitVec.ofNat 16 j) := by
  induction l generalizing prev with
  | nil => cases h
  | cons i l ih =>
    unfold locate at h
    split at h
    · next hmatch =>
      cases h
      exact ⟨[], i, l, rfl, rfl, hmatch, by simp, Or.inl ⟨rfl, rfl⟩⟩
    · next hmatch =>
      obtain ⟨l₁, j, l₂, rfl, hc, hj, hnone, hprev⟩ := ih h
      refine ⟨i :: l₁, j, l₂, rfl, hc, hj, ?_, Or.inr ?_⟩
      · simp only [List.mem_cons, forall_eq_or_imp]
        exact ⟨Bool.eq_false_iff.mpr hmatch, hnone⟩
      · rcases hprev with ⟨rfl, rfl⟩ | ⟨l₀, j', rfl, rfl⟩
        · exact ⟨[], i, rfl, rfl⟩
        · exact ⟨i :: l₀, j', rfl, rfl⟩

/-- The block after an inner slot has been moved to the head of its queue. -/
def toHead (b : Block) (tid : Tid) (prev curr : Nat) : Block :=
  ((b.setNext prev (b.messages curr).next).setNext curr (b.info tid).head).setMsgInfo tid
    { (b.info tid) with
      head := BitVec.ofNat 16 curr
      tail := if (b.info tid).tail = BitVec.ofNat 16 curr then BitVec.ofNat 16 prev
        else (b.info tid).tail }

theorem moveToHead_apply {p c : Nat} (hp : p < processMessageMax) (hc : c < processMessageMax) :
    moveToHead tid (BitVec.ofNat 16 p) (BitVec.ofNat 16 c) b = .ok () (b.toHead tid p c) := by
  simp only [moveToHead, bind_apply, modify_apply, toNat_ofNat_slot hp, toNat_ofNat_slot hc]
  simp [toHead, setMessage, setMsgInfo, setNext, setThread, info]
  rfl

/-- Unlink the slot behind `p` and link it in front. -/
theorem toHead_step {l₀ l₂ : List Nat} {p c : Nat} (h : b.Linked on) (hon : on tid)
    (hslots : b.slots tid = l₀ ++ p :: c :: l₂) :
    QueueStep on tid b (b.toHead tid p c) (c :: (l₀ ++ p :: l₂))
      ((c :: (l₀ ++ p :: l₂)).map b.envelope) := by
  have hq := h.queued tid hon
  rw [hslots] at hq
  have hperm : ∀ i, i ∈ c :: (l₀ ++ p :: l₂) ↔ i ∈ l₀ ++ p :: c :: l₂ := by
    intro i
    simp only [List.mem_cons, List.mem_append]
    tauto
  have hslot : ∀ i ∈ c :: (l₀ ++ p :: l₂), i < processMessageMax ∧ b.used i = true :=
    fun i hi => hq.slot i ((hperm i).mp hi)
  have hseg := hq.seg (by simp)
  have hc : c < processMessageMax := (hslot c List.mem_cons_self).1
  have hp : p < processMessageMax := (hslot p (by simp)).1
  have hnext : (b.toHead tid p c).next =
      Function.update (Function.update b.next p (b.next c)) c (linkOf (b.info tid).head) := by
    simp [toHead, next]
  have hinfo : (b.toHead tid p c).info = Function.update b.info tid
      { (b.info tid) with
        head := BitVec.ofNat 16 c
        tail := if (b.info tid).tail = BitVec.ofNat 16 c then BitVec.ofNat 16 p
          else (b.info tid).tail } := by simp [toHead]
  have hself : (b.toHead tid p c).Queued tid (c :: (l₀ ++ p :: l₂)) := by
    refine ⟨?_, fun _ => ?_, fun i hi => ?_, fun i hi => hslot i hi⟩
    · rw [hinfo, Function.update_self, hq.count]
      simp only [List.length_append, List.length_cons]
      omega
    · rw [hinfo, Function.update_self, hnext, linkOf_ofNat hc]
      exact hseg.toFront
    · rw [hinfo, Function.update_self]
      -- The tail moves to `p` exactly when the slot that moves was the last one.
      rcases List.eq_nil_or_concat l₂ with rfl | ⟨l₃, t, rfl⟩
      · have hold : l₀ ++ [p, c] = (l₀ ++ [p]) ++ [c] := by simp
        have htail := hq.tail c (by rw [hold, List.getLast?_concat])
        rw [← List.cons_append, List.getLast?_concat, Option.some.injEq] at hi
        rw [if_pos (by rw [← htail, BitVec.ofNat_toNat, BitVec.setWidth_eq]),
          toNat_ofNat_slot hp, hi]
      · have hold : l₀ ++ p :: c :: l₃.concat t = (l₀ ++ p :: c :: l₃) ++ [t] := by simp
        have hnew : c :: (l₀ ++ p :: l₃.concat t) = (c :: (l₀ ++ p :: l₃)) ++ [t] := by simp
        have htail := hq.tail t (by rw [hold, List.getLast?_concat])
        rw [hnew, List.getLast?_concat, Option.some.injEq] at hi
        have hne : (b.info tid).tail ≠ BitVec.ofNat 16 c := by
          intro heq
          rw [heq, toNat_ofNat_slot hc] at htail
          have hnodup := hseg.nodup
          simp [List.nodup_append, htail] at hnodup
        rw [if_neg hne, htail, hi]
  have hstep := h.replace hself (fun t ht => ?_) (fun t ht hne i hi => ?_) (fun t ht hne => ?_)
    (fun _ hcount => absurd hcount (hself.count_ne_zero (List.cons_ne_nil _ _))) ?_
  · have henv : (b.toHead tid p c).envelope = b.envelope := by simp [toHead]
    rwa [henv] at hstep
  · rw [hinfo, Function.update_of_ne ht]
  · have hout : i ∉ l₀ ++ p :: c :: l₂ := fun hmem =>
      h.disjoint tid t hon ht hne.symm (hslots ▸ hmem) hi
    have hic : i ≠ c := fun hic => hout (by simp [hic])
    have hip : i ≠ p := fun hip => hout (by simp [hip])
    rw [hnext, Function.update_of_ne hic, Function.update_of_ne hip]
    exact ⟨rfl, ((h.queued t ht).slot i hi).2, by simp [toHead]⟩
  · intro i hi hit
    exact h.disjoint tid t hon ht hne.symm (hslots ▸ (hperm i).mp hi) hit
  · exact (((SameExceptQueues.refl b).setMessage _ _).setMessage _ _).setMsgInfo _ _

theorem promote_of_none {p : Envelope → Bool} {q : List Envelope} (h : ∀ e ∈ q, p e = false) :
    promote p q = q := by
  have hfind : q.find? p = none := List.find?_eq_none.mpr fun e he => by simp [h e he]
  rw [promote, hfind]

theorem promote_of_split {p : Envelope → Bool} {q₁ q₂ : List Envelope} (he : p e = true)
    (h : ∀ e ∈ q₁, p e = false) : promote p (q₁ ++ e :: q₂) = e :: (q₁ ++ q₂) := by
  have hfind : (q₁ ++ e :: q₂).find? p = some e := by
    rw [List.find?_append, List.find?_eq_none.mpr fun e he => by simp [h e he]]
    simp [he]
  rw [promote, hfind]
  simp only
  rw [List.eraseP_append_right _ fun e he => by simp [h e he], List.eraseP_cons_of_pos he]

/-- `message_find` answers whether there is a match, and brings the first one to the front. -/
theorem messageFind_step (h : b.Linked on) (hon : on tid) (hlive : b.live tid = true)
    (search : IpcPort) :
    ∃ b' l, messageFind tid search b = .ok ((b.queue tid).any (matchesPort search)) b' ∧
      QueueStep on tid b b' l (promote (matchesPort search) (b.queue tid)) ∧
      (∀ i, i ∈ l ↔ i ∈ b.slots tid) ∧ b'.process = b.process ∧
      ((b.queue tid).any (matchesPort search) = false → b' = b) := by
  have hq := h.queued tid hon
  by_cases hnil : b.slots tid = []
  · -- An empty queue has no match.
    have hqueue : b.queue tid = [] := by rw [queue, hnil, List.map_nil]
    rw [hnil] at hq
    have hcount := hq.count_eq_zero
    simp only [info] at hcount
    refine ⟨b, _, ?_, ?_, fun _ => Iff.rfl, rfl, fun _ => rfl⟩
    · simp only [messageFind, bind_apply, assertLive_apply hlive, get_apply, if_pos hcount,
        hqueue]
      rfl
    · rw [hqueue, promote_of_none (by simp), ← hqueue]
      exact .refl h
  · have hcount := hq.count_ne_zero hnil
    simp only [info] at hcount
    -- The walk from the head answers as `locate` does on the list of slots.
    have hfind : findFrom search (processMessageMax + 1) noLink (b.info tid).head b =
        .ok (b.locate search noLink (b.slots tid)) b :=
      findFrom_apply (hq.seg hnil) (fun i hi => (hq.slot i hi).1) (hq.length_lt)
    simp only [info] at hfind
    simp only [messageFind, bind_apply, assertLive_apply hlive, get_apply, if_neg hcount, hfind]
    rcases hloc : b.locate search noLink (b.slots tid) with _ | ⟨p, c⟩
    · -- No match: nothing changes.
      have hnone : ∀ e ∈ b.queue tid, matchesPort search e = false := by
        intro e he
        obtain ⟨i, hi, rfl⟩ := List.mem_map.mp he
        exact locate_eq_none hloc i hi
      refine ⟨b, _, ?_, ?_, fun _ => Iff.rfl, rfl, fun _ => rfl⟩
      · rw [List.any_eq_false.mpr fun e he => by simp [hnone e he]]
        rfl
      · rw [promote_of_none hnone]
        exact .refl h
    · obtain ⟨l₁, i, l₂, hl, rfl, hi, hnone, hprev⟩ := locate_eq_some hloc
      have hslot : ∀ j ∈ l₁ ++ i :: l₂, j < processMessageMax := fun j hj =>
        (hq.slot j (hl ▸ hj)).1
      have hqueue : b.queue tid =
          l₁.map b.envelope ++ b.envelope i :: l₂.map b.envelope := by
        rw [queue, hl, List.map_append, List.map_cons]
      have hany : (b.queue tid).any (matchesPort search) = true := by
        rw [List.any_eq_true]
        exact ⟨b.envelope i, by simp [hqueue], hi⟩
      have hfirst : ∀ e ∈ l₁.map b.envelope, matchesPort search e = false := by
        intro e he
        obtain ⟨j, hj, rfl⟩ := List.mem_map.mp he
        exact hnone j hj
      rw [hany]
      rcases hprev with ⟨rfl, rfl⟩ | ⟨l₀, j, rfl, rfl⟩
      · -- The match is the head already.
        refine ⟨b, _, rfl, ?_, fun _ => Iff.rfl, rfl, fun _ => rfl⟩
        rw [hqueue, promote_of_split hi hfirst, List.map_nil, List.nil_append]
        rw [List.map_nil, List.nil_append] at hqueue
        rw [← hqueue]
        exact .refl h
      · -- The match is unlinked from the slot before it and put in front.
        have hj : j < processMessageMax := hslot j (by simp)
        have hne : BitVec.ofNat 16 j ≠ noLink := by
          intro heq
          have hlink := linkOf_ofNat hj
          rw [heq] at hlink
          cases hlink
        refine ⟨b.toHead tid j i, i :: (l₀ ++ j :: l₂), ?_, ?_, ?_, rfl, by simp⟩
        · simp only [if_neg hne, bind_apply, moveToHead_apply hj (hslot i (by simp))]
          rfl
        · have hsplit : b.slots tid = l₀ ++ j :: i :: l₂ := by simp [hl]
          have hstep := toHead_step h hon hsplit
          rw [hqueue, promote_of_split hi hfirst]
          simpa using hstep
        · intro t
          rw [hl]
          simp only [List.mem_cons, List.mem_append, List.not_mem_nil]
          tauto

end Block

end Horizon
