import Horizon.Ipc.Mail
import Horizon.System.Frame

/-!
# Horizon — the kernel state as mail

`Kernel.mail` forgets everything but the views of the live threads. `Kernel.Linked off` is
what makes this reading valid: the queues of all live threads, except those in `off`, are
proper lists. `off` is empty, or the thread that a page fault in the middle of
`message_remove` is about to kill.

`Spares dead` is the frame relation for everything that is not a message operation: whatever
happens to the threads in `dead`, the others keep their mail. When the threads in `dead` are
gone at the end, the mail has lost exactly them.
-/

namespace Horizon

open StateError

namespace Kernel

/-- The mailbox of a live thread, with its queue as a list. -/
def view (k : Kernel) (uid : ThreadUid) : Option View :=
  if k.live uid then
    some
      { port := k.portOfUid uid
        state := (k.thread uid).state
        waitFor := (k.thread uid).syscallInfo.waitFor
        payloadAddr := (k.thread uid).syscallInfo.payloadAddr
        payloadSize := (k.thread uid).syscallInfo.payloadSize
        queue := (k.blocks uid.pid).queue uid.tid }
  else none

/-- The kernel as the mailboxes see it. -/
def mail (k : Kernel) : Mail := { view := k.view, history := k.history }

/-- The threads of a process whose queues are required to be proper. -/
def sound (k : Kernel) (off : ThreadUid → Bool) (pid : Pid) (tid : Tid) : Prop :=
  k.live { pid, tid } = true ∧ off { pid, tid } = false

/-- The queues of all live threads are proper chains, but for those in `off`. -/
def Linked (k : Kernel) (off : ThreadUid → Bool) : Prop :=
  ∀ pid, (k.blocks pid).Linked (k.sound off pid)

/-- The queue of a thread is not the untouched queue of a new thread. -/
def Closed (k : Kernel) (uid : ThreadUid) : Prop := (k.blocks uid.pid).Closed uid.tid

/-- The control block of a live process says which process it is. -/
def Named (k : Kernel) : Prop :=
  ∀ pid, k.liveProcess pid = true → (k.blocks pid).process.pid = pid

end Kernel

/-- The empty set of threads. -/
def nobody : ThreadUid → Bool := fun _ => false

/-- One thread. -/
def only (uid : ThreadUid) : ThreadUid → Bool := fun v => v = uid

/-- The threads of one process. -/
def threadsOf (pid : Pid) : ThreadUid → Bool := fun v => v.pid = pid

variable {k k' k'' : Kernel} {uid v : ThreadUid} {off dead : ThreadUid → Bool}

namespace Kernel

theorem view_of_live (h : k.live uid = true) : k.view uid = some
      { port := k.portOfUid uid
        state := (k.thread uid).state
        waitFor := (k.thread uid).syscallInfo.waitFor
        payloadAddr := (k.thread uid).syscallInfo.payloadAddr
        payloadSize := (k.thread uid).syscallInfo.payloadSize
        queue := (k.blocks uid.pid).queue uid.tid } := if_pos h

theorem view_of_not_live (h : k.live uid = false) : k.view uid = none := by
  rw [view, h]
  rfl

theorem live_of_view {w : View} (h : k.view uid = some w) : k.live uid = true := by
  by_contra hlive
  rw [view, if_neg hlive] at h
  cases h

theorem view_isSome : (k.view uid).isSome = k.live uid := by
  unfold view
  cases k.live uid <;> rfl

/-- The abstract resolution of ports is the kernel's. -/
theorem resolve_mail (port : IpcPort) (parent : Pid) :
    k.mail.resolve port parent = k.portToUid port parent := by
  unfold Mail.resolve portToUid
  split
  · rfl
  · split
    · rfl
    · simp only [mail, view, threadGet_eq]
      cases hlive : k.live { pid := port.pid, tid := port.tid } with
      | false => simp
      | true => rfl

theorem port_mail (h : k.live uid = true) : k.mail.port uid = k.portOfUid uid :=
  Mail.port_of_view (m := k.mail) (view_of_live h)

end Kernel

/-! ## Steps that keep the queues of the threads they spare -/

structure Spares (dead : ThreadUid → Bool) (k k' : Kernel) : Prop where
  live : ∀ uid, dead uid = false → k'.live uid = k.live uid
  gone : ∀ uid, k'.live uid = true → k.live uid = true
  thread : ∀ uid, dead uid = false → k.live uid = true →
    (k'.thread uid).core = (k.thread uid).core
  port : ∀ uid, dead uid = false → k.live uid = true → k'.portOfUid uid = k.portOfUid uid
  used : ∀ uid, dead uid = false → k.live uid = true →
    ∀ i, (k.blocks uid.pid).used i = true → (k'.blocks uid.pid).used i = true
  messages : ∀ uid, dead uid = false → k.live uid = true →
    (k'.blocks uid.pid).messages = (k.blocks uid.pid).messages
  history : k'.history = k.history
  named : k.Named → k'.Named
  services : k'.serviceIds = k.serviceIds

namespace Spares

instance : Std.Refl (Spares dead) where
  refl _ := ⟨fun _ _ => rfl, fun _ h => h, fun _ _ _ => rfl, fun _ _ _ => rfl,
    fun _ _ _ _ h => h, fun _ _ _ => rfl, rfl, id, rfl⟩

theorem trans (h₁ : Spares dead k k') (h₂ : Spares dead k' k'') : Spares dead k k'' where
  live u hu := (h₂.live u hu).trans (h₁.live u hu)
  gone u hu := h₁.gone u (h₂.gone u hu)
  thread u hu hl := (h₂.thread u hu (by rw [h₁.live u hu, hl])).trans (h₁.thread u hu hl)
  port u hu hl := (h₂.port u hu (by rw [h₁.live u hu, hl])).trans (h₁.port u hu hl)
  used u hu hl i hi := h₂.used u hu (by rw [h₁.live u hu, hl]) i (h₁.used u hu hl i hi)
  messages u hu hl := (h₂.messages u hu (by rw [h₁.live u hu, hl])).trans (h₁.messages u hu hl)
  history := h₂.history.trans h₁.history
  named h := h₂.named (h₁.named h)
  services := h₂.services.trans h₁.services

instance : IsTrans Kernel (Spares dead) where
  trans _ _ _ := trans

theorem refl (k : Kernel) : Spares dead k k := Std.Refl.refl k

theorem mono {dead' : ThreadUid → Bool} (h : Spares dead k k')
    (hsub : ∀ u, dead' u = false → dead u = false) : Spares dead' k k' where
  live u hu := h.live u (hsub u hu)
  gone := h.gone
  thread u hu := h.thread u (hsub u hu)
  port u hu := h.port u (hsub u hu)
  used u hu := h.used u (hsub u hu)
  messages u hu := h.messages u (hsub u hu)
  history := h.history
  named := h.named
  services := h.services

variable (h : Spares dead k k') (hspared : dead uid = false) (hlive : k.live uid = true)
include h hspared hlive

theorem info : (k'.blocks uid.pid).info uid.tid = (k.blocks uid.pid).info uid.tid :=
  show (k'.thread uid).core.msgInfo = (k.thread uid).core.msgInfo by
    rw [h.thread uid hspared hlive]

theorem slots : (k'.blocks uid.pid).slots uid.tid = (k.blocks uid.pid).slots uid.tid := by
  have hnext : (k'.blocks uid.pid).next = (k.blocks uid.pid).next := by
    funext i
    rw [Block.next, Block.next, h.messages uid hspared hlive]
  rw [Block.slots, Block.slots, h.info hspared hlive, hnext]

theorem queue : (k'.blocks uid.pid).queue uid.tid = (k.blocks uid.pid).queue uid.tid := by
  rw [Block.queue, Block.queue, h.slots hspared hlive]
  refine List.map_congr_left fun i _ => ?_
  rw [Block.envelope, Block.envelope, h.messages uid hspared hlive]

theorem view : k'.view uid = k.view uid := by
  have hcore := h.thread uid hspared hlive
  have hstate : (k'.thread uid).state = (k.thread uid).state :=
    show (k'.thread uid).core.state = (k.thread uid).core.state by rw [hcore]
  have hwait : (k'.thread uid).syscallInfo.waitFor = (k.thread uid).syscallInfo.waitFor :=
    show (k'.thread uid).core.syscallInfo.waitFor = (k.thread uid).core.syscallInfo.waitFor by
      rw [hcore]
  have haddr : (k'.thread uid).syscallInfo.payloadAddr = (k.thread uid).syscallInfo.payloadAddr :=
    show (k'.thread uid).core.syscallInfo.payloadAddr =
      (k.thread uid).core.syscallInfo.payloadAddr by rw [hcore]
  have hsize : (k'.thread uid).syscallInfo.payloadSize = (k.thread uid).syscallInfo.payloadSize :=
    show (k'.thread uid).core.syscallInfo.payloadSize =
      (k.thread uid).core.syscallInfo.payloadSize by rw [hcore]
  rw [Kernel.view, Kernel.view, h.live uid hspared, h.port uid hspared hlive, hstate, hwait,
    haddr, hsize, h.queue hspared hlive]

theorem queued (hq : (k.blocks uid.pid).Queued uid.tid ((k.blocks uid.pid).slots uid.tid)) :
    (k'.blocks uid.pid).Queued uid.tid ((k.blocks uid.pid).slots uid.tid) := by
  refine hq.frame (h.info hspared hlive) (fun i _ => ?_) fun i hi => ?_
  · rw [Block.next, Block.next, h.messages uid hspared hlive]
  · exact h.used uid hspared hlive i (hq.slot i hi).2

theorem closed_iff : k'.Closed uid ↔ k.Closed uid := by
  rw [Kernel.Closed, Kernel.Closed, Block.Closed, Block.Closed, h.info hspared hlive]

theorem state : (k'.thread uid).state = (k.thread uid).state :=
  show (k'.thread uid).core.state = (k.thread uid).core.state by
    rw [h.thread uid hspared hlive]

theorem waitFor : (k'.thread uid).syscallInfo.waitFor = (k.thread uid).syscallInfo.waitFor :=
  show (k'.thread uid).core.syscallInfo.waitFor = (k.thread uid).core.syscallInfo.waitFor by
    rw [h.thread uid hspared hlive]

end Spares

/-- No thread is woken, put to sleep or killed, and no message moves. -/
abbrev Alike (k k' : Kernel) : Prop := Spares nobody k k'

/-- The threads in `dead` are gone, and nothing else has happened. -/
structure Kills (dead : ThreadUid → Bool) (k k' : Kernel) : Prop extends Spares dead k k' where
  killed : ∀ uid, dead uid = true → k'.live uid = false

namespace Kills

theorem spared (h : Kills dead k k') (hlive : k'.live uid = true) :
    dead uid = false ∧ k.live uid = true := by
  refine ⟨?_, h.gone uid hlive⟩
  cases hdead : dead uid with
  | false => rfl
  | true =>
    rw [h.killed uid hdead] at hlive
    cases hlive

/-- Threads that disappear no longer need proper queues. -/
theorem linked {off' : ThreadUid → Bool} (h : Kills dead k k') (hk : k.Linked off)
    (hoff : ∀ u, dead u = false → off' u = false → off u = false) : k'.Linked off' := by
  have hon : ∀ pid t, k'.sound off' pid t →
      dead { pid, tid := t } = false ∧ k.sound off pid t := by
    intro pid t ht
    obtain ⟨hspared, hlive⟩ := h.spared ht.1
    exact ⟨hspared, hlive, hoff _ hspared ht.2⟩
  intro pid
  refine ⟨fun t ht => ?_, fun t₁ t₂ h₁ h₂ hne => ?_⟩
  · obtain ⟨hspared, hold⟩ := hon pid t ht
    have hq := h.queued hspared hold.1 ((hk pid).queued t hold)
    rwa [← h.slots hspared hold.1] at hq
  · obtain ⟨hs₁, hold₁⟩ := hon pid t₁ h₁
    obtain ⟨hs₂, hold₂⟩ := hon pid t₂ h₂
    rw [h.slots hs₁ hold₁.1, h.slots hs₂ hold₂.1]
    exact (hk pid).disjoint t₁ t₂ hold₁ hold₂ hne

theorem view_eq (h : Kills dead k k') (uid : ThreadUid) :
    k'.view uid = if dead uid then none else k.view uid := by
  cases hdead : dead uid with
  | true =>
    rw [if_pos rfl]
    exact Kernel.view_of_not_live (h.killed uid hdead)
  | false =>
    rw [if_neg (by decide)]
    cases hlive : k.live uid with
    | true => exact h.view hdead hlive
    | false =>
      rw [Kernel.view_of_not_live hlive,
        Kernel.view_of_not_live ((h.live uid hdead).trans hlive)]

theorem mail (h : Kills dead k k') : k'.mail = k.mail.remove dead :=
  Mail.ext (funext h.view_eq) h.history

end Kills

namespace Spares

theorem kills (h : Alike k k') : Kills nobody k k' := ⟨h, nofun⟩

theorem mail (h : Alike k k') : k'.mail = k.mail := h.kills.mail

theorem linked (h : Alike k k') (hk : k.Linked off) : k'.Linked off :=
  h.kills.linked hk fun _ _ hu => hu

theorem portToUid (h : Alike k k') (port : IpcPort) (parent : Pid) :
    k'.portToUid port parent = k.portToUid port parent := by
  rw [← Kernel.resolve_mail, ← Kernel.resolve_mail, h.mail]

end Spares

namespace Quiet

theorem threadInfo (h : Quiet k k') (pid : Pid) :
    (k'.blocks pid).process.threadInfo = (k.blocks pid).process.threadInfo :=
  show (k'.blocks pid).process.core.threadInfo = (k.blocks pid).process.core.threadInfo by
    rw [h.process]

theorem liveProcess (h : Quiet k k') (pid : Pid) : k'.liveProcess pid = k.liveProcess pid := by
  rw [Kernel.liveProcess, Kernel.liveProcess, h.blockMap]

theorem live (h : Quiet k k') (uid : ThreadUid) : k'.live uid = k.live uid := by
  rw [Kernel.live, Kernel.live, h.liveProcess, Block.live, Block.live, h.threadInfo]

theorem spares (h : Quiet k k') : Spares dead k k' where
  live u _ := h.live u
  gone u hu := by rwa [h.live u] at hu
  thread u _ _ := h.thread u
  port u _ _ := by
    show portOf (k'.blocks u.pid).process.core (k'.thread u).core =
      portOf (k.blocks u.pid).process.core (k.thread u).core
    rw [h.process, h.thread]
  used u _ _ i hi := by
    show bitmapTest (k'.blocks u.pid).process.core.msgInfo.bitmap i = true
    rw [h.process]
    exact hi
  messages u _ _ := h.messages u.pid
  history := h.history
  named hk pid hpid := by
    show (k'.blocks pid).process.core.pid = pid
    rw [h.process]
    exact hk pid (by rwa [h.liveProcess] at hpid)
  services := h.services

end Quiet

theorem Does.spares {α : Type} {S : List Effect} {x : KernelM α}
    [hS : Within S Effect.quiet] (h : Does S x) : Ensures (Spares dead) x :=
  h.quiet.mono fun _ _ hq => hq.spares

end Horizon
