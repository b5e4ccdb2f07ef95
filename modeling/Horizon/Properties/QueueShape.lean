import Horizon.System.Boot
import Horizon.System.Exposed

/-!
# Horizon — the shape of the queues in every reachable state

`Kernel.QueueShape` is what `message_find` takes for granted about the intrusive lists: the
chain of a thread has as many slots as it counts and ends at its tail, no slot is on two
chains, and therefore the search ends and stays among the slots of its own thread.

It holds along every run from boot that spares the kernel's memory and in which no event is a
*first wake-up*: a message put in front of the queue of a thread that has never had one
(`queueShape_of_run`). `thread_new`
leaves the head of such a queue at 0, not at -1, and `message_add` copies it into the new
message, so the first wake-up of a thread links its message to slot 0
(`first_wakeup_breaks_chain`).
-/

namespace Horizon

open StateError

variable {k k' k₀ : Kernel} {uid : ThreadUid} {evs : List Event}

structure Kernel.QueueShape (k : Kernel) : Prop where
  /-- Following `next` from the head visits `count` distinct slots and ends at the tail. -/
  chain : ∀ uid, k.live uid = true → 0 < (k.thread uid).msgInfo.count →
    ((k.blocks uid.pid).slots uid.tid).length = (k.thread uid).msgInfo.count ∧
    ((k.blocks uid.pid).slots uid.tid).Nodup ∧
    ((k.blocks uid.pid).slots uid.tid).getLast? = some (k.thread uid).msgInfo.tail.toNat ∧
    ((k.blocks uid.pid).messages (k.thread uid).msgInfo.tail.toNat).next = noLink
  /-- No slot is visited from the heads of two threads. -/
  disjoint : ∀ pid t₁ t₂, k.live { pid, tid := t₁ } = true → k.live { pid, tid := t₂ } = true →
    t₁ ≠ t₂ → ((k.blocks pid).slots t₁).Disjoint ((k.blocks pid).slots t₂)
  /-- The search returns, and leaves the other threads what they had. -/
  find : ∀ uid port, k.live uid = true → ∃ found k', messageFind uid port k = .ok found k' ∧
    ∀ v, v ≠ uid → k'.view v = k.view v
  /-- Its loop depends on no message outside the chain. -/
  inspects : ∀ uid port messages, k.live uid = true → 0 < (k.thread uid).msgInfo.count →
    (∀ i ∈ (k.blocks uid.pid).slots uid.tid, messages i = (k.blocks uid.pid).messages i) →
    ∃ r, Block.findFrom port (processMessageMax + 1) noLink (k.thread uid).msgInfo.head
        (k.blocks uid.pid) = .ok r (k.blocks uid.pid) ∧
      Block.findFrom port (processMessageMax + 1) noLink (k.thread uid).msgInfo.head
        { k.blocks uid.pid with messages } = .ok r { k.blocks uid.pid with messages }

/-! ## Sound states -/

theorem Block.locate_congr {b b' : Block} {search : IpcPort} {prev : Link} {l : List Nat}
    (h : ∀ i ∈ l, b'.envelope i = b.envelope i) :
    b'.locate search prev l = b.locate search prev l := by
  induction l generalizing prev with
  | nil => rfl
  | cons i l ih =>
    unfold locate
    rw [h i List.mem_cons_self, ih fun j hj => h j (List.mem_cons_of_mem i hj)]

/-- The loop of `message_find` on a proper chain, whatever the other slots hold. -/
theorem Block.findFrom_local {b : Block} {tid : Tid} {l : List Nat} (h : b.Queued tid l)
    (hl : l ≠ []) (search : IpcPort) {messages : Nat → Message}
    (hsame : ∀ i ∈ l, messages i = b.messages i) :
    findFrom search (processMessageMax + 1) noLink (b.info tid).head { b with messages } =
      .ok (b.locate search noLink l) { b with messages } := by
  have hseg :
      LinkedCells.Seg ({ b with messages } : Block).next (linkOf (b.info tid).head) l none := by
    refine (h.seg hl).frame fun i hi => ?_
    exact congrArg (fun m : Message => linkOf m.next) (hsame i hi)
  rw [findFrom_apply hseg (fun i hi => (h.slot i hi).1) h.length_lt]
  refine congrArg (fun r => EStateM.Result.ok r _) (locate_congr fun i hi => ?_)
  exact congrArg Message.toEnvelope (hsame i hi)

theorem Kernel.Sound.queued (hk : k.Sound) (hlive : k.live uid = true) :
    (k.blocks uid.pid).Queued uid.tid ((k.blocks uid.pid).slots uid.tid) :=
  (hk.linked uid.pid).queued uid.tid ⟨hlive, rfl⟩

theorem Kernel.Sound.slots_ne_nil (hk : k.Sound) (hlive : k.live uid = true)
    (hcount : 0 < (k.thread uid).msgInfo.count) : (k.blocks uid.pid).slots uid.tid ≠ [] := by
  intro hnil
  have hlen := (hk.queued hlive).count
  rw [hnil] at hlen
  change (k.thread uid).msgInfo.count = 0 at hlen
  omega

theorem messageFind_returns (hk : k.Sound) (hlive : k.live uid = true) (port : IpcPort) :
    ∃ found k', messageFind uid port k = .ok found k' := by
  obtain ⟨b', l, hfind, -⟩ := Block.messageFind_step (hk.linked uid.pid)
    (show k.sound nobody uid.pid uid.tid from ⟨hlive, rfl⟩) (Kernel.live_block hlive) port
  refine ⟨((k.blocks uid.pid).queue uid.tid).any (Block.matchesPort port),
    k.setBlock uid.pid b', ?_⟩
  have hproc : k.processGet uid.pid = some (k.blocks uid.pid).process :=
    Kernel.processGet_eq_some.mpr ⟨Kernel.liveProcess_of_live hlive, rfl⟩
  rw [messageFind, get_bind_apply, hproc]
  exact onBlock_eq_ok.mpr ⟨b', hfind, rfl⟩

theorem Kernel.Sound.queueShape (hk : k.Sound) : k.QueueShape where
  chain uid hlive hcount := by
    have hq := hk.queued hlive
    have hne := hk.slots_ne_nil hlive hcount
    have hlast := List.getLast?_eq_some_getLast hne
    have htail : (k.thread uid).msgInfo.tail.toNat = _ := hq.tail _ hlast
    refine ⟨hq.count.symm, hq.nodup, by rw [htail]; exact hlast, ?_⟩
    obtain ⟨l, hl⟩ := List.getLast?_eq_some_iff.mp hlast
    have hseg := hq.seg hne
    rw [hl] at hseg
    rw [htail]
    exact linkOf_eq_none.mp hseg.next_last
  disjoint pid t₁ t₂ h₁ h₂ hne := (hk.linked pid).disjoint t₁ t₂ ⟨h₁, rfl⟩ ⟨h₂, rfl⟩ hne
  find uid port hlive := by
    obtain ⟨found, k', hfind⟩ := messageFind_returns hk hlive port
    obtain ⟨-, hb, -⟩ := messageFind_eq_ok hk.linked hlive hfind
    refine ⟨found, k', hfind, fun v hv => ?_⟩
    have hview : k'.mail.view v = k.mail.view v := by rw [hb.mail, Mail.view_modify, if_neg hv]
    exact hview
  inspects uid port messages hlive hcount hsame := by
    have hq := hk.queued hlive
    have hne := hk.slots_ne_nil hlive hcount
    exact ⟨_, Block.findFrom_local hq hne port fun _ _ => rfl,
      Block.findFrom_local hq hne port hsame⟩

/-! ## Runs -/

/-- Every run from boot that spares the kernel's memory keeps the queues in shape, as long as no
event is a first wake-up. -/
theorem queueShape_of_run (hboot : Booted k₀) (hrun : Exposed.Run NoFirstWake k₀ evs k) :
    k.QueueShape := (sound_of_run hrun.steps hboot.bootState.sound).queueShape

/-- The first process sends a message to the second one, which is not waiting. -/
theorem send_keeps_queueShape :
    ∃ k₀ k, Booted k₀ ∧ Exposed.Run NoFirstWake k₀ [callEvent 13 0x1000 0 0] k ∧
      (k.thread { pid := 3, tid := 0 }).msgInfo.count = 1 ∧ k.QueueShape := by
  have hany : (runPages (fun phys => if phys = 0x2000 then 3 else 0) [0x2000, 0x3000]
      [callEvent 13 0x1000 0 0]).any
      (fun k => (k.thread { pid := 3, tid := 0 }).msgInfo.count = 1) = true := by decide +kernel
  obtain ⟨k₀, k, hboot, hrun, hcount⟩ := exists_run_of_any hany
  obtain ⟨k₁, hstep, hlast⟩ := Option.bind_eq_some_iff.mp hrun
  cases hlast
  have hsteps : Exposed.Run NoFirstWake k₀ [callEvent 13 0x1000 0 0] k :=
    Exposed.Run.of_harmless (.cons hstep (hboot.bootState.noFirstWake _) (.nil k)) rfl
  exact ⟨k₀, k, hboot, hsteps, of_decide_eq_true hcount, queueShape_of_run hboot hsteps⟩

/-- The first process waits for any message, then the second one sends it its first message:
the only message of the queue is its own successor. -/
theorem first_wakeup_breaks_chain :
    ∃ k₀ k, Booted k₀ ∧
      runEvents Kernel.step k₀ [callEvent 6 1 0 0, callEvent 13 0x1000 0 0] = some k ∧
      k.live { pid := 2, tid := 0 } = true ∧
      (k.thread { pid := 2, tid := 0 }).msgInfo.count = 1 ∧
      (k.thread { pid := 2, tid := 0 }).msgInfo.tail = 0 ∧
      ((k.blocks 2).messages 0).next = 0 ∧ ¬k.QueueShape := by
  have hany : (runPages (fun phys => if phys = 0x3000 then 2 else 0) [0x2000, 0x3000]
      [callEvent 6 1 0 0, callEvent 13 0x1000 0 0]).any (fun k =>
        k.live { pid := 2, tid := 0 } = true ∧
        (k.thread { pid := 2, tid := 0 }).msgInfo.count = 1 ∧
        (k.thread { pid := 2, tid := 0 }).msgInfo.tail = 0 ∧
        ((k.blocks 2).messages 0).next = 0) = true := by decide +kernel
  obtain ⟨k₀, k, hboot, hrun, hfacts⟩ := exists_run_of_any hany
  obtain ⟨hlive, hcount, htail, hnext⟩ := of_decide_eq_true hfacts
  refine ⟨k₀, k, hboot, hrun, hlive, hcount, htail, hnext, fun hshape => ?_⟩
  obtain ⟨-, -, -, hend⟩ := hshape.chain _ hlive (by rw [hcount]; decide)
  rw [htail] at hend
  exact absurd (hnext.symm.trans hend) (by decide)

end Horizon
