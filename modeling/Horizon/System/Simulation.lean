import Horizon.System.Lifecycle
import Horizon.System.UserMemory

/-!
# Horizon — every step of the kernel is a sequence of moves

`Allowed k ev` is what an event may do to the mail: a `send` moves the message that user memory
holds, and only the running thread sends, receives and waits.

A handler that returns has made allowed moves (`Good`), unless it has woken a thread with an
untouched queue. A handler that meets a page fault has made allowed moves up to the running
thread (`Faulty`), which the fault then kills.
-/

namespace Horizon

open StateError

variable {k k' t t' : Kernel} {uid v : ThreadUid} {A : Move → Prop}
  {B : ThreadUid → IpcPort → Prop}

/-- Does the event create a thread? -/
def Event.creates (ev : Event) : Bool :=
  match ev.call with
  | some (.launch _ _) => true
  | some (.dispatch _ _) => true
  | _ => false

/-- The moves an event may make. -/
def Kernel.Allowed (k : Kernel) (ev : Event) : Move → Prop
  | .send u _ info =>
      u = k.schedulerCurr ∧ ∃ src, ev.call = some (.send src) ∧ info = k.msgAt src
  | .ksend _ _ => ev.creates = false
  | .take u e port _ => u = k.schedulerCurr ∧
      ((∃ dest, ev.call = some (.recv dest) ∧ port = e.sender) ∨
        ∃ info, ev.call = some (.drop info) ∧ (info ≠ 0 → port = e.sender))
  | .lose u e port _ => u = k.schedulerCurr ∧ port = e.sender ∧
      ∃ dest, ev.call = some (.recv dest)
  | .promote u port => u = k.schedulerCurr ∧ ev.call = some (.wait port)
  | .sleep u port => u = k.schedulerCurr ∧ ev.call = some (.wait port)
  | .create u port damage => ev.creates = true ∧ (k.Named → port.pid = u.pid) ∧ port.tid = u.tid ∧
      ∀ v w, ¬(v.pid = u.pid ∧ u.tid < v.tid) → damage v w = w
  | .kill _ => ev.creates = false

/-- The messages an event may hand over, by target and sender. Any event that does not create a
thread may end in a page fault, which the process manager is told about. -/
def Kernel.Hands (k : Kernel) (ev : Event) (u : ThreadUid) (sender : IpcPort) : Prop :=
  (∃ src, ev.call = some (.send src) ∧
    u = k.portToUid (k.msgAt src).dest k.schedulerCurr.pid ∧
    sender = k.portOfUid k.schedulerCurr) ∨
  (sender = .kernel ∧
    ((∃ port code args, ev = .ksend port code args ∧ u = k.portToUid port 0) ∨
     (∃ frame line, ev = .irq frame line ∧ u = k.portToUid (k.serviceIds line.toNat) 0) ∨
     (ev.creates = false ∧ u = k.portToUid (k.serviceIds svcProcmgr) 0)))

/-- The handler has returned after allowed moves. -/
def Good (A : Move → Prop) (B : ThreadUid → IpcPort → Prop) (k k' : Kernel) : Prop :=
  FirstWake B k ∨ ∃ moves m, Mail.Runs A k.mail moves m ∧ Becomes k k' m

/-- The handler has stopped at a page fault after allowed moves. The scheduler may be locked,
in which case the fault has no thread to blame. -/
def Faulty (A : Move → Prop) (k k' : Kernel) : Prop :=
  k'.locked = true ∨ ∃ moves m, Mail.Runs A k.mail moves m ∧ Stuck k'.activeThread k k' m

/-- Every outcome of `x` in state `k` is accounted for by moves. -/
def Moves (A : Move → Prop) (B : ThreadUid → IpcPort → Prop) (x : KernelM Unit) (k : Kernel) : Prop :=
  Post (fun _ k' => Good A B k k') (fun e k' => e = .pageFault → Faulty A k k') (x k)

/-- The invariant of all runs: no live thread has a broken queue. -/
structure Kernel.Sound (k : Kernel) : Prop where
  linked : k.Linked nobody

theorem Mail.Runs.one {m : Mail} {move : Move} (hvalid : m.Valid move) (hallowed : A move) :
    Mail.Runs A m [move] (m.apply move) := .cons rfl ⟨hvalid, hallowed⟩ (.nil _)

namespace Becomes

variable {m : Mail}

theorem good (h : Becomes k k' m) {moves : List Move} (hr : Mail.Runs A k.mail moves m) :
    Good A B k k' := Or.inr ⟨moves, m, hr, h⟩

theorem one (move : Move) (h : Becomes k k' (k.mail.apply move)) (hvalid : k.mail.Valid move)
    (hallowed : A move) : Good A B k k' := h.good (.one hvalid hallowed)

theorem sound (h : Becomes k k' m) (hk : k.Sound) : k'.Sound :=
  ⟨h.linked hk.linked⟩

end Becomes

namespace Spares

theorem sound (h : Alike k k') (hk : k.Sound) : k'.Sound := h.becomes.sound hk

theorem good (h : Alike k k') : Good A B k k' := h.becomes.good (.nil _)

theorem faulty (h : Alike k k') (hk : k.Sound) : Faulty A k k' :=
  Or.inr ⟨[], _, .nil _, h.becomes.stuck h.steady hk.linked _⟩

/-- A quiet beginning makes no difference. -/
theorem good_trans (h : Alike k t) (hg : Good A B t k') : Good A B k k' := by
  rcases hg with hw | ⟨moves, m, hr, hb⟩
  · exact Or.inl (hw.of_becomes h.becomes h.steady)
  · exact Or.inr ⟨moves, m, h.mail ▸ hr, h.becomes.trans hb⟩

theorem faulty_trans (h : Alike k t) (hf : Faulty A t k') : Faulty A k k' := by
  rcases hf with hlocked | ⟨moves, m, hr, hs⟩
  · exact Or.inl hlocked
  · refine Or.inr ⟨moves, m, h.mail ▸ hr, ⟨hs.linked,
      fun hn => hs.named (h.named hn), hs.history, hs.view,
      fun u hu => h.gone u (hs.live u hu), fun u hu hc => ?_, ?_⟩⟩
    · exact hs.closed u hu (h.becomes.closed u (hs.live u hu) hc)
    · exact h.steady.trans hs.live hs.closed hs.steady

end Spares

theorem Good.alike (hg : Good A B k t) (h : Alike t k') : Good A B k k' := by
  rcases hg with hw | ⟨moves, m, hr, hb⟩
  · exact Or.inl hw
  · refine Or.inr ⟨moves, m, hr, ?_⟩
    have := hb.trans h.becomes
    rwa [hb.mail] at this

namespace Moves

variable {α : Type} {x y : KernelM Unit}

theorem quiet (hx : Ensures Quiet x) (hk : k.Sound) : Moves A B x k :=
  .of_ensures hx (fun _ _ h => h.spares.good) fun _ _ h _ => h.spares.faulty hk

theorem still (hx : Ensures Still x) (hk : k.Sound) : Moves A B x k :=
  quiet (hx.mono fun _ _ hs => hs.toQuiet) hk

theorem read {x : KernelM α} {f : α → KernelM Unit} (hx : Ensures Still x) (hk : k.Sound)
    (hf : ∀ a t, x k = .ok a t → Still k t → t.Sound → Moves A B (f a) t) :
    Moves A B (x >>= f) k := by
  refine Post.bind (Q := fun a t => x k = .ok a t) (.of_ok (fun a t h => h) fun e t h he => ?_)
    fun a t h => ?_
  · exact (hx.error h).toQuiet.spares.faulty hk
  · have halike : Alike k t := (hx.ok h).toQuiet.spares
    exact (hf a t h (hx.ok h) (halike.sound hk)).mono (fun _ _ hg => halike.good_trans hg)
      fun _ _ hfault he => halike.faulty_trans (hfault he)

theorem get {f : Kernel → KernelM Unit} (h : Moves A B (f k) k) : Moves A B (get >>= f) k := h

theorem ite {c : Prop} [Decidable c] (hx : c → Moves A B x k) (hy : ¬c → Moves A B y k) :
    Moves A B (if c then x else y) k := Post.ite hx hy

theorem ret (val : Word) (hk : k.Sound) : Moves A B (syscallReturnSet val) k :=
  still (syscallReturnSet_does val).still hk

end Moves

/-! ## Sending -/

theorem FirstWake.mono {B' : ThreadUid → IpcPort → Prop} (h : FirstWake B k)
    (hB : ∀ u sender, B u sender → k.live u = true → B' u sender) : FirstWake B' k := by
  obtain ⟨u, sender, hhanded, hlive, hrest⟩ := h
  exact ⟨u, sender, hB u sender hhanded hlive, hlive, hrest⟩

theorem internalKsend_moves {port : IpcPort} {code : Word} {args : MsgArgs} (hk : k.Sound)
    (hA : ∀ v info, A (.ksend v info))
    (hB : k.live (k.portToUid port 0) = true → B (k.portToUid port 0) .kernel) :
    Moves A B (internalKsend port code args) k := by
  refine .get (.read (dassert_does _).still hk fun _ t h _ hs => ?_)
  obtain ⟨-, rfl⟩ := dassert_eq_ok.mp h
  refine .read (derefProcess_does _).still hs fun _ t h _ hs => ?_
  obtain ⟨-, -, rfl⟩ := derefProcess_eq_ok.mp h
  refine .read (.failIf _ _) hs fun _ t h _ hs => ?_
  obtain ⟨-, rfl⟩ := failIf_eq_ok.mp h
  refine .read (derefThread_does _).still hs fun _ t h _ hs => ?_
  obtain ⟨hlive, -, rfl⟩ := derefThread_eq_ok.mp h
  have hinfo : Ensures Still (pure { dest := port, code, args } : KernelM Msg) := .pure _
  refine .of_ok (fun _ k' h => ?_) fun e k' h he => ?_
  · rcases deliver_eq_ok hs.linked hlive hinfo h with hw | ⟨msg, ⟨_, _, -, hread⟩, hb, -⟩
    · exact Or.inl (hw.mono fun _ _ hv _ => hv.1 ▸ hv.2 ▸ hB hlive)
    · rw [pure_eq_ok] at hread
      obtain ⟨rfl, -⟩ := hread
      refine hb.good (.one ?_ (hA _ _))
      exact ⟨by rw [show ∀ m : Kernel, m.mail.view = m.view from fun _ => rfl,
          Kernel.view_isSome, hlive],
        rfl, rfl⟩
  · subst he
    exact (deliver_fault hinfo h).1.faulty hs

theorem Kernel.msgAt_congr (h : k'.vm = k.vm) (src : Word) : k'.msgAt src = k.msgAt src := by
  simp only [Kernel.msgAt, h]

theorem Kernel.mail_view_isSome : (k.mail.view uid).isSome = k.live uid := view_isSome

section Send

variable {caller target : ThreadUid} {port dest : IpcPort} {src buf : Word}

theorem sendDeliver_eq_ok (hk : k.Sound) (hlive : k.live target = true)
    (h : sendDeliver caller target port src dest buf k = .ok () k') :
    FirstWake (fun v sender => v = target ∧ sender = port) k ∨ Becomes k k'
      ((k.mail.modify target (View.accept (Block.envelopeOf port { k.msgAt src with dest, buf }))).log
        (.sent caller target { k.msgAt src with dest, buf })) := by
  obtain ⟨_, t, hdeliver, hunlock⟩ := bind_eq_ok.mp h
  have halike : Alike t k' := (unlockIfLocked_does.quiet.ok hunlock).spares
  rcases deliver_eq_ok hk.linked hlive (fetchMsg_does _ _ _).still hdeliver with
    hw | ⟨msg, ⟨k₁, k₂, hvm, hread⟩, hb, -⟩
  · exact Or.inl hw
  · have hmsg := fetchMsg_eq_ok hread
    rw [Kernel.msgAt_congr hvm] at hmsg
    subst hmsg
    have hall := hb.trans halike.becomes
    rw [hb.mail] at hall
    exact Or.inr hall

theorem sendDeliver_fault (h : sendDeliver caller target port src dest buf k = .error .pageFault k') :
    Alike k k' ∧ SameTask k k' := by
  rcases bind_eq_error.mp h with h | ⟨_, _, _, h⟩
  · exact deliver_fault (fetchMsg_does _ _ _).still h
  · exact absurd h (unlockIfLocked_does.noFault _ _)

/-- A message without payload is delivered by the running thread. -/
theorem sendDeliver_moves (hk : k.Sound) (hcaller : k.live caller = true)
    (htarget : k.live target = true) (hport : port = k.portOfUid caller)
    (hdest : dest = (k.msgAt src).dest) (hbuf : buf = (k.msgAt src).buf) (hzero : buf = 0)
    (hA : A (.send caller target (k.msgAt src))) (hB : B target port) :
    Moves A B (sendDeliver caller target port src dest buf) k := by
  refine .of_ok (fun _ k' h => ?_) fun e k' h he => ?_
  · rcases sendDeliver_eq_ok hk htarget h with hw | hb
    · exact Or.inl (hw.mono fun _ _ hv _ => hv.1 ▸ hv.2 ▸ hB)
    · subst hdest hbuf
      rw [hport, ← Kernel.port_mail hcaller] at hb
      have happly : k.mail.apply (.send caller target (k.msgAt src)) =
          (k.mail.modify target (View.accept (Block.envelopeOf (k.mail.port caller)
            (k.msgAt src)))).log (.sent caller target (k.msgAt src)) := by
        simp only [Mail.apply, Mail.blockFor, hzero, ne_eq, not_true, if_false]
      have hrun : Mail.Runs A k.mail [.send caller target (k.msgAt src)]
          (k.mail.apply (.send caller target (k.msgAt src))) := Mail.Runs.one
        ⟨⟨_, Kernel.view_of_live hcaller, fun hne => absurd hzero hne⟩,
          Kernel.mail_view_isSome.trans htarget⟩ hA
      rw [happly] at hrun
      exact hb.good hrun
  · subst he
    exact (sendDeliver_fault h).1.faulty hk

/-- A payload blocks the caller first. A fault now finds the scheduler locked. -/
theorem blockCaller_sendDeliver_moves (hk : k.Sound) (hcaller : k.live caller = true)
    (htarget : k.live target = true) (hport : port = k.portOfUid caller)
    (hdest : dest = (k.msgAt src).dest) (hbuf : (k.msgAt src).buf ≠ 0)
    (hsize : (k.msgAt src).size ≠ 0)
    (hA : A (.send caller target (k.msgAt src))) (hB : B target port) : Moves A B (do
      blockCaller caller (k.msgAt src).buf (k.msgAt src).size
      sendDeliver caller target port src dest (k.msgAt src).buf) k := by
  have hnoFault : Never .pageFault (blockCaller caller (k.msgAt src).buf (k.msgAt src).size) :=
    .bind schedulerLock_does.noFault fun _ => .bind (schedulerRemove_does _).noFault fun _ => .modify _
  refine .of_ok (fun _ k' h => ?_) fun e k' h he => ?_
  · obtain ⟨_, t, hblock, hsend⟩ := bind_eq_ok.mp h
    obtain ⟨-, hactive, hb₁, hw₁, -, hvm⟩ := blockCaller_eq_ok hblock
    -- Blocking the caller leaves the target alive, even if it is the caller itself.
    have htarget' : t.live target = true := by
      rw [← Kernel.mail_view_isSome, hb₁.mail, Mail.view_modify]
      split
      · rw [Option.isSome_map, Kernel.mail_view_isSome, htarget]
      · rw [Kernel.mail_view_isSome, htarget]
    rcases sendDeliver_eq_ok (hb₁.sound hk) htarget' hsend with hw | hb₂
    · exact Or.inl ((hw.mono fun _ _ hv _ => hv.1 ▸ hv.2 ▸ hB).of_becomes hb₁ hw₁)
    · subst hdest
      rw [Kernel.msgAt_congr hvm, hport, ← Kernel.port_mail hcaller, hb₁.mail] at hb₂
      have happly : k.mail.apply (.send caller target (k.msgAt src)) =
          ((k.mail.modify caller (View.block (k.msgAt src).buf (k.msgAt src).size)).modify target
            (View.accept (Block.envelopeOf (k.mail.port caller) (k.msgAt src)))).log
            (.sent caller target (k.msgAt src)) := by
        simp only [Mail.apply, Mail.blockFor, if_pos hbuf]
      have hrun : Mail.Runs A k.mail [.send caller target (k.msgAt src)]
          (k.mail.apply (.send caller target (k.msgAt src))) := Mail.Runs.one
        ⟨⟨_, Kernel.view_of_live hcaller, fun _ => ⟨hactive, hsize⟩⟩,
          Kernel.mail_view_isSome.trans htarget⟩ hA
      rw [happly] at hrun
      exact (hb₁.trans hb₂).good hrun
  · subst he
    rcases bind_eq_error.mp h with h | ⟨_, t, hblock, hsend⟩
    · exact absurd h (hnoFault _ _)
    · obtain ⟨-, -, -, -, hlocked, -⟩ := blockCaller_eq_ok hblock
      exact Or.inl ((sendDeliver_fault hsend).2.locked.trans hlocked)

end Send

theorem sendPayload_moves {caller target : ThreadUid} {port dest : IpcPort} {src : Word}
    (hk : k.Sound) (hcaller : k.live caller = true) (htarget : k.live target = true)
    (hport : port = k.portOfUid caller) (hdest : dest = (k.msgAt src).dest)
    (hA : A (.send caller target (k.msgAt src))) (hB : B target port) :
    Moves A B (sendPayload caller target port src dest) k := by
  -- The state changes only in its registers and in the log of accesses until the caller blocks.
  have hsame : ∀ {t t' : Kernel}, Still t t' → t'.vm = t.vm → t.live caller = true →
      t.live target = true → port = t.portOfUid caller → t.msgAt src = k.msgAt src →
      t'.live caller = true ∧ t'.live target = true ∧ port = t'.portOfUid caller ∧
        t'.msgAt src = k.msgAt src := by
    intro t t' hst hvm hc ht hp hm
    have halike : Alike t t' := hst.toQuiet.spares
    exact ⟨(halike.live _ rfl).trans hc, (halike.live _ rfl).trans ht,
      hp.trans (halike.port _ rfl hc).symm, (Kernel.msgAt_congr hvm src).trans hm⟩
  refine .read (syscallReturnSet_does _).still hk fun _ t₁ h hst hs => ?_
  obtain ⟨hc₁, ht₁, hp₁, hm₁⟩ := hsame hst (by rw [modify_eq_ok.mp h]) hcaller htarget hport rfl
  refine .read (userWord_does _).still hs fun buf t₂ h hst hs => ?_
  have hbuf : buf = (k.msgAt src).buf := (userWord_eq_ok h).trans (congrArg Msg.buf hm₁)
  obtain ⟨hc₂, ht₂, hp₂, hm₂⟩ := hsame hst ((userWord_does _).reads.ok h).vm hc₁ ht₁ hp₁ hm₁
  subst hbuf
  refine .ite (fun hne => ?_) fun hzero => ?_
  · refine .read (userWord_does _).still hs fun size t₃ h hst hs => ?_
    have hsize : size = (k.msgAt src).size := (userWord_eq_ok h).trans (congrArg Msg.size hm₂)
    obtain ⟨hc₃, ht₃, hp₃, hm₃⟩ := hsame hst ((userWord_does _).reads.ok h).vm hc₂ ht₂ hp₂ hm₂
    subst hsize
    refine .ite (fun _ => .ret _ hs) fun hsize => ?_
    refine .read (virtualIsMapped_does _ _ _).still hs fun mapped t₄ h hst hs => ?_
    obtain ⟨hc₄, ht₄, hp₄, hm₄⟩ := hsame hst ((virtualIsMapped_does _ _ _).reads.ok h).vm hc₃ ht₃ hp₃ hm₃
    refine .ite (fun _ => .ret _ hs) fun _ => ?_
    rw [← hm₄] at hdest hne hsize hA ⊢
    exact blockCaller_sendDeliver_moves hs hc₄ ht₄ hp₄ hdest hne hsize hA hB
  · rw [← hm₂] at hdest hzero hA ⊢
    exact sendDeliver_moves hs hc₂ ht₂ hp₂ hdest rfl (not_not.mp hzero) hA hB

/-- `send` reads the message and delivers it, or returns with an error and has done nothing. -/
theorem syscallSend_moves {src : Word} (hk : k.Sound)
    (hA : ∀ target, A (.send k.schedulerCurr target (k.msgAt src)))
    (hB : B (k.portToUid (k.msgAt src).dest k.schedulerCurr.pid) (k.portOfUid k.schedulerCurr)) :
    Moves A B (syscallSend src) k := by
  refine .get (.read (portFromUid_does _).still hk fun port t₁ h hst hs => ?_)
  obtain ⟨hcaller, rfl, rfl⟩ := portFromUid_eq_ok.mp h
  refine .read (virtualIsMapped_does _ _ _).still hs fun mapped t₂ h hst hs => ?_
  have hvm₂ := ((virtualIsMapped_does _ _ _).reads.ok h).vm
  have halike₂ : Alike k t₂ := hst.toQuiet.spares
  refine .ite (fun _ => .ret _ hs) fun _ => ?_
  refine .read (userWord_does _).still hs fun raw t₃ h hst hs => ?_
  have hvm₃ := ((userWord_does _).reads.ok h).vm.trans hvm₂
  have halike₃ : Alike k t₃ := halike₂.trans hst.toQuiet.spares
  have hraw : IpcPort.ofRaw raw = (k.msgAt src).dest := by
    rw [userWord_eq_ok h, hvm₂]
    rfl
  refine .ite (fun _ => .ret _ hs) fun _ => .get (.ite (fun _ => .ret _ hs) fun _ => .get ?_)
  refine .ite (fun _ => .ret _ hs) fun hlive => ?_
  rw [Bool.not_eq_false] at hlive
  refine .read (derefProcess_does _).still hs fun proc t₄ h hst hs => ?_
  obtain ⟨-, -, rfl⟩ := derefProcess_eq_ok.mp h
  refine .ite (fun _ => .ret _ hs) fun _ => ?_
  -- All reads are done, and none of them has changed the memory they read.
  refine sendPayload_moves hs ((halike₃.live _ rfl).trans hcaller) hlive
    (halike₃.port _ rfl hcaller).symm ?_ ?_ ?_
  · rw [Kernel.msgAt_congr hvm₃, hraw]
  · rw [Kernel.msgAt_congr hvm₃]
    exact hA _
  · rw [halike₃.portToUid, hraw]
    exact hB

/-! ## Waiting -/

theorem messageFind_live {port : IpcPort} {found : Bool}
    (h : messageFind uid port k = .ok found k') : k.live uid = true := by
  simp only [messageFind, get_bind_apply, bind_eq_ok, dassertSome, orThrow_eq_ok,
    Kernel.processGet_eq_some, onBlock_eq_ok] at h
  obtain ⟨_, _, ⟨⟨hproc, -⟩, rfl⟩, b, hfind, -⟩ := h
  obtain ⟨_, _, hassert, -⟩ := bind_eq_ok.mp hfind
  simp only [Block.assertLive, get_bind_apply, ite_eq_ok, throw_eq_ok, and_false, or_false] at hassert
  rw [Kernel.live, hproc, hassert.1]
  rfl

theorem syscallWait_moves {port : IpcPort} (hk : k.Sound)
    (hpromote : A (.promote k.schedulerCurr port)) (hsleep : A (.sleep k.schedulerCurr port)) :
    Moves A B (syscallWait port) k := by
  refine .get (Post.bind (Q := fun found t => messageFind k.schedulerCurr port k = .ok found t)
    (.of_ok (fun _ _ h => h) fun e t h he => ?_) fun found t h => ?_)
  · subst he
    exact absurd h ((messageFind_does _ _).noFault _ _)
  have hlive := messageFind_live h
  obtain ⟨hfound, hb, -, hnone⟩ := messageFind_eq_ok hk.linked hlive h
  cases found with
  | true =>
    -- The match is at the head now.
    refine .of_ok (fun _ k' hret => ?_) fun e k' hret => by cases hret
    have halike : Alike t k' := ((syscallReturnSet_does _).still.ok hret).toQuiet.spares
    exact (Becomes.one (.promote k.schedulerCurr port) hb (Kernel.mail_view_isSome.trans hlive)
      hpromote).alike halike
  | false =>
    obtain rfl := hnone rfl
    refine Moves.get (.ite (fun _ => .ret _ hk) fun _ => .get ?_)
    refine .ite (fun _ => .ret _ hk) fun _ => .of_ok (fun _ k' h => ?_) fun e k' h he => ?_
    · obtain ⟨-, hactive, hb⟩ := sleepCaller_eq_ok h
      refine Becomes.one (.sleep k.schedulerCurr port) hb
        ⟨_, Kernel.view_of_live hlive, hactive, fun e he => ?_⟩ hsleep
      exact Bool.eq_false_iff.mpr (List.any_eq_false.mp hfound.symm e he)
    · subst he
      exact absurd h ((sleepCaller_does _ _).noFault _ _)

/-! ## Receiving -/

theorem schedulerAdd_sameTask (hactive : k.activeThread.pid ≠ 0)
    (h : schedulerAdd uid k = .ok () k') : SameTask k k' := by
  simp only [schedulerAdd, get_bind_apply, bind_eq_ok, dassertSome_threadGet_eq_ok, dassert_eq_ok,
    modifyThread_eq_ok] at h
  obtain ⟨_, _, ⟨-, rfl, rfl⟩, _, _, ⟨-, rfl⟩, _, k₁, rfl, hring⟩ := h
  simp only [ringInsert, get_bind_apply, ite_eq_ok] at hring
  rcases hring with ⟨hzero, -⟩ | ⟨-, hring⟩
  · exact absurd hzero hactive
  · have hstill : Ensures Still (do
        let curr ← derefThread k.activeThread
        let prev := curr.schedInfo.prev
        let _ ← derefThread prev
        modifySched uid fun s => { s with next := k.activeThread, prev := prev }
        modifySched k.activeThread fun s => { s with prev := uid }
        modifySched prev fun s => { s with next := uid }) :=
      .bind (derefThread_does _).still fun _ => .bind (derefThread_does _).still fun _ =>
        .bind (modifySched_does _ _).still fun _ => .bind (modifySched_does _ _).still fun _ =>
          (modifySched_does _ _).still
    have hs := hstill.ok hring
    exact ⟨hs.active, hs.locked⟩

theorem Kernel.curr_of_live (h : k.live k.schedulerCurr = true) :
    k.schedulerCurr = k.activeThread ∧ k.activeThread.pid ≠ 0 := by
  have hproc := liveProcess_of_live h
  unfold schedulerCurr at *
  split at hproc
  · simp [liveProcess] at hproc
  · next hlocked =>
    refine ⟨if_neg hlocked, fun hzero => ?_⟩
    rw [hzero] at hproc
    simp [liveProcess] at hproc

section Receive

variable {caller : ThreadUid} {dest : Word}

theorem recvFinish_eq_ok {size : Word} (hk : k.Sound) (hlive : k.live caller = true)
    (h : recvFinish caller dest size k = .ok () k') :
    ∃ e q, (k.blocks caller.pid).queue caller.tid = e :: q ∧
      Becomes k k' ((k.mail.modify caller View.pop).log (.removed caller e)) := by
  simp only [recvFinish, bind_eq_ok] at h
  obtain ⟨e, k₁, hremove, _, k₂, hrecord, hret⟩ := h
  obtain ⟨⟨q, hqueue⟩, hb₁, -⟩ := messageRemove_eq_ok hk.linked hlive hremove
  have hb₂ := (record_eq_ok hrecord).1
  rw [hb₁.mail] at hb₂
  have halike : Alike k₂ k' := ((syscallReturnSet_does _).still.ok hret).toQuiet.spares
  have hb₃ := halike.becomes
  rw [hb₂.mail] at hb₃
  exact ⟨e, q, hqueue, hb₁.trans (hb₂.trans hb₃)⟩

theorem recvFinish_fault {size : Word} (hk : k.Sound) (hlive : k.live caller = true)
    (h : recvFinish caller dest size k = .error .pageFault k') :
    Stuck caller k k' k.mail ∧ SameTask k k' := by
  rcases bind_eq_error.mp h with h | ⟨_, _, _, h⟩
  · exact messageRemove_fault hk.linked hlive h
  · exact absurd h (Never.bind (.modify _) (fun _ => .modify _) _ _)

theorem Becomes.queue_modify {f : View → View} (h : Becomes k t (k.mail.modify v f))
    (hf : ∀ w, (f w).queue = w.queue) (hlive : k.live uid = true) :
    t.live uid = true ∧ (t.blocks uid.pid).queue uid.tid = (k.blocks uid.pid).queue uid.tid := by
  have hview : t.view uid = (k.mail.modify v f).view uid :=
    congrArg (fun m : Mail => m.view uid) h.mail
  rw [Mail.view_modify, show k.mail.view uid = k.view uid from rfl, Kernel.view_of_live hlive] at hview
  have hlive' : t.live uid = true := by
    rw [← Kernel.view_isSome, hview]
    split <;> rfl
  rw [Kernel.view_of_live hlive'] at hview
  refine ⟨hlive', ?_⟩
  split at hview
  · injection hview with hw
    have hqueue := congrArg View.queue hw
    rw [hf] at hqueue
    exact hqueue
  · injection hview with hw
    exact congrArg View.queue hw

theorem recvFinish_moves {size : Word} {e : Envelope} {q : List Envelope} (hk : k.Sound)
    (hlive : k.live caller = true) (hactive : caller = k.activeThread)
    (hqueue : (k.blocks caller.pid).queue caller.tid = e :: q)
    (hnot : ¬(e.payload = true ∧ k.portToUid e.sender 0 ≠ 0))
    (hA : A (.take caller e e.sender 0)) : Moves A B (recvFinish caller dest size) k := by
  rw [← Kernel.resolve_mail] at hnot
  refine .of_ok (fun _ k' h => ?_) fun err k' h he => ?_
  · obtain ⟨e', q', hqueue', hb⟩ := recvFinish_eq_ok hk hlive h
    rw [hqueue, List.cons.injEq] at hqueue'
    obtain ⟨rfl, rfl⟩ := hqueue'
    rw [← Mail.apply_take_of_not hnot] at hb
    refine Becomes.one _ hb ⟨⟨_, q, Kernel.view_of_live hlive, hqueue⟩, fun hp hr => ?_⟩ hA
    exact absurd ⟨hp, hr⟩ hnot
  · subst he
    obtain ⟨hstuck, htask⟩ := recvFinish_fault hk hlive h
    refine Or.inr ⟨[], _, .nil _, ?_⟩
    rw [htask.active, ← hactive]
    exact hstuck

/-- Receiving a message after its payload has been copied and its sender woken. -/
theorem recvFinish_wake_moves {size : Word} {e : Envelope} {q : List Envelope} (hk : k.Sound)
    (hlive : k.live caller = true) (hactive : caller = k.activeThread)
    (hpid : k.activeThread.pid ≠ 0) (hqueue : (k.blocks caller.pid).queue caller.tid = e :: q)
    (hwake : e.payload = true ∧ k.portToUid e.sender 0 ≠ 0)
    (htake : A (.take caller e e.sender 0)) (hlose : A (.lose caller e e.sender 0)) : Moves A B (do
      schedulerAdd (k.portToUid e.sender 0)
      recvFinish caller dest size) k := by
  have hresolve := Kernel.resolve_mail (k := k) e.sender 0
  rw [← hresolve] at hwake ⊢
  have hcan : ∀ {t}, schedulerAdd (k.mail.resolve e.sender 0) k = .ok () t →
      k.mail.CanWake e e.sender 0 := fun hadd _ _ => by
    obtain ⟨hl, hs, -⟩ := schedulerAdd_becomes hadd
    exact ⟨_, Kernel.view_of_live hl, hs⟩
  refine .of_ok (fun _ k' h => ?_) fun err k' h he => ?_
  · obtain ⟨_, t, hadd, hfinish⟩ := bind_eq_ok.mp h
    obtain ⟨-, -, -, hb₁, -⟩ := schedulerAdd_becomes hadd
    obtain ⟨hlive', hsame⟩ := hb₁.queue_modify (fun _ => rfl) hlive
    obtain ⟨e', q', hqueue', hb₂⟩ := recvFinish_eq_ok (hb₁.sound hk) hlive' hfinish
    rw [hsame, hqueue, List.cons.injEq] at hqueue'
    obtain ⟨rfl, rfl⟩ := hqueue'
    rw [hb₁.mail, ← Mail.apply_take_of_wake hwake] at hb₂
    exact Becomes.one _ (hb₁.trans hb₂) ⟨⟨_, q, Kernel.view_of_live hlive, hqueue⟩, hcan hadd⟩ htake
  · subst he
    rcases bind_eq_error.mp h with h | ⟨_, t, hadd, hfinish⟩
    · exact absurd h ((schedulerAdd_does _).noFault _ _)
    · -- The sender is awake but the message could not be stored: the caller dies with it.
      obtain ⟨-, -, -, hb₁, hw₁⟩ := schedulerAdd_becomes hadd
      obtain ⟨hlive', -⟩ := hb₁.queue_modify (fun _ => rfl) hlive
      obtain ⟨hstuck, htask⟩ := recvFinish_fault (hb₁.sound hk) hlive' hfinish
      rw [hb₁.mail] at hstuck
      have hvalid : k.mail.Valid (.lose caller e e.sender 0) :=
        ⟨⟨_, q, Kernel.view_of_live hlive, hqueue⟩, hcan hadd⟩
      refine Or.inr ⟨_, _, Mail.Runs.one hvalid hlose, ?_⟩
      rw [htask.active, (schedulerAdd_sameTask hpid hadd).active, ← hactive]
      refine Stuck.of_becomes hb₁ hw₁ hstuck ?_ fun u hu => ?_
      · rw [Mail.apply, Mail.wakeFor, if_pos hwake]
        rfl
      · rw [Mail.apply, Mail.wakeFor, if_pos hwake, Mail.view_remove, if_neg]
        rwa [decide_eq_true_eq]

end Receive

/-- What `recvPayload` can end in: an error code, or a copied payload and a woken sender. -/
def RecvOutcome (sender : ThreadUid) (k : Kernel) :
    EStateM.Result Fault Kernel (Except Word Word) → Prop
  | .ok (.error _) t => Still k t
  | .ok (.ok _) t => ∃ s, Still k s ∧ schedulerAdd sender s = .ok () t
  | .error e t => e = .pageFault → Still k t

theorem RecvOutcome.read {α : Type} {sender : ThreadUid} {x : KernelM α}
    {f : α → KernelM (Except Word Word)} (hx : Ensures Still x)
    (hf : ∀ a s, RecvOutcome sender s (f a s)) : RecvOutcome sender k ((x >>= f) k) := by
  rw [bind_apply]
  cases hxk : x k with
  | error e t => exact fun _ => hx.error hxk
  | ok a s =>
    have hks := hx.ok hxk
    have hrest := hf a s
    simp only
    revert hrest
    cases f a s with
    | error e t => exact fun h he => hks.trans (h he)
    | ok r t =>
      cases r with
      | error _ => exact fun h => hks.trans h
      | ok _ => exact fun ⟨s', hs', hadd⟩ => ⟨s', hks.trans hs', hadd⟩

theorem recvPayload_outcome (caller sender : ThreadUid) (dest : Word) (k : Kernel) :
    RecvOutcome sender k (recvPayload caller sender dest k) := by
  refine .read (derefThread_does _).still fun thread s => .read .get fun _ s => ?_
  refine .read (userWord_does _).still fun addrTo s => .read (userWord_does _).still fun sizeTo s => ?_
  split
  · exact Still.refl s
  refine .read (virtualIsMapped_does _ _ _).still fun mapped s => ?_
  split
  · exact Still.refl s
  refine .read (copyPayload_does _ _ _ _ _).still fun _ s => ?_
  rw [bind_apply]
  cases hadd : schedulerAdd sender s with
  | ok _ t => exact ⟨s, Still.refl s, hadd⟩
  | error e t =>
    rintro rfl
    exact absurd hadd ((schedulerAdd_does _).noFault _ _)

/-- `recv` is a `take`, or a `lose` if the copy faults after the sender has been woken. -/
theorem syscallRecv_moves {dest : Word} (hk : k.Sound)
    (htake : ∀ e, A (.take k.schedulerCurr e e.sender 0))
    (hlose : ∀ e, A (.lose k.schedulerCurr e e.sender 0)) : Moves A B (syscallRecv dest) k := by
  refine .get (.read (virtualIsMapped_does _ _ _).still hk fun mapped t₁ _ hst₁ hs => ?_)
  refine .ite (fun _ => .ret _ hs) fun _ => ?_
  refine .read (derefThread_does _).still hs fun thread t₂ hderef _ hs => ?_
  obtain ⟨hlive, -, rfl⟩ := derefThread_eq_ok.mp hderef
  have hlive₀ : k.live k.schedulerCurr = true := by
    rw [← hst₁.toQuiet.live]
    exact hlive
  obtain ⟨hcurr, hpid⟩ := Kernel.curr_of_live hlive₀
  have hactive : k.schedulerCurr = t₁.activeThread := hcurr.trans hst₁.active.symm
  rw [← hst₁.active] at hpid
  refine .ite (fun _ => .ret _ hs) fun _ => ?_
  refine Post.bind (Q := fun r t => messagePeek k.schedulerCurr t₁ = .ok r t)
    (.of_ok (fun _ _ h => h) fun e t h he => ?_) fun r t₂ hpeek => ?_
  · subst he
    exact absurd h ((messagePeek_does _).noFault _ _)
  obtain ⟨port, hasPayload⟩ := r
  obtain ⟨rfl, e, q, hqueue, rfl, rfl⟩ := messagePeek_eq_ok hs.linked hlive hpeek
  refine Moves.get (.ite (fun hwake => ?_) fun hnot => ?_)
  · -- There is a payload to copy first; only if that succeeds is the sender woken.
    have hout := recvPayload_outcome k.schedulerCurr (t₁.portToUid e.sender 0) dest t₁
    unfold Moves
    rw [bind_apply]
    revert hout
    cases recvPayload k.schedulerCurr (t₁.portToUid e.sender 0) dest t₁ with
    | error err t => exact fun hfault he => (hfault he).toQuiet.spares.faulty hs
    | ok r t =>
      cases r with
      | error code =>
        intro hstill
        have halike : Alike t₁ t := hstill.toQuiet.spares
        exact (Moves.ret (A := A) (B := B) code (halike.sound hs)).mono
          (fun _ _ hg => halike.good_trans hg) fun _ _ hf he => halike.faulty_trans (hf he)
      | ok size =>
        rintro ⟨s, hstill, hadd⟩
        have halike : Alike t₁ s := hstill.toQuiet.spares
        rw [← halike.portToUid] at hadd hwake
        have hm : Moves A B (do
            schedulerAdd (s.portToUid e.sender 0)
            recvFinish k.schedulerCurr dest size) s :=
          recvFinish_wake_moves (halike.sound hs) ((halike.live _ rfl).trans hlive)
            (hactive.trans hstill.active.symm) (by rw [hstill.active]; exact hpid)
            ((halike.queue rfl hlive).trans hqueue) hwake (htake e) (hlose e)
        unfold Moves at hm
        rw [bind_apply, hadd] at hm
        exact hm.mono (fun _ _ hg => halike.good_trans hg)
          fun _ _ hf he => halike.faulty_trans (hf he)
  · exact recvFinish_moves hs hlive hactive hqueue hnot (htake e)

/-- A port that names no thread. -/
def nowhere : IpcPort := { pvn := 1 }

theorem Kernel.resolve_nowhere (parent : Pid) : k.mail.resolve nowhere parent = 0 := by
  rw [resolve_mail]
  have hdead : k.threadGet { pid := nowhere.pid, tid := nowhere.tid } = none := rfl
  rw [portToUid, hdead, if_neg (by decide), if_neg (by decide)]

section Drop

variable {caller : ThreadUid} {info : Word} {e : Envelope}

/-- The state of a thread does not change when another, or the same, pops its queue. -/
theorem Becomes.state_pop {r : ThreadUid} {event : IpcEvent}
    (h : Becomes k t ((k.mail.modify caller View.pop).log event)) (hlive : t.live r = true) :
    ∃ w, k.mail.view r = some w ∧ w.state = (t.thread r).state := by
  have hview : t.view r = (k.mail.modify caller View.pop).view r :=
    congrArg (fun m : Mail => m.view r) h.mail
  rw [Kernel.view_of_live hlive, Mail.view_modify] at hview
  split at hview
  · obtain ⟨w, hw, hpop⟩ := Option.map_eq_some_iff.mp hview.symm
    exact ⟨w, hw, congrArg View.state hpop⟩
  · exact ⟨_, hview.symm, rfl⟩

/-- The message `syscall_drop` removes, and the memory it reads the sender back from. -/
theorem dropHead_eq_ok (hk : k.Sound) (hlive : k.live caller = true)
    (hremove : messageRemove caller info k = .ok e t)
    (hrecord : record (.removed caller e) t = .ok () t') :
    (∃ q, (k.blocks caller.pid).queue caller.tid = e :: q) ∧
      Becomes k t' ((k.mail.modify caller View.pop).log (.removed caller e)) ∧
      Steady k t' ∧ (info ≠ 0 → t'.vm.Holds info e.sender.raw) := by
  obtain ⟨hqueue, hb₁, hw₁, s₁, s₂, hstore, hvm⟩ := messageRemove_eq_ok hk.linked hlive hremove
  obtain ⟨hb₂, hw₂⟩ := record_eq_ok hrecord
  rw [hb₁.mail] at hb₂
  refine ⟨hqueue, hb₁.trans hb₂, hw₁.trans hb₂.live hb₂.closed hw₂, fun hinfo => ?_⟩
  rw [runIf_eq_ok] at hstore
  rcases hstore with ⟨-, hstore⟩ | ⟨hzero, -⟩
  · rw [record, modify_eq_ok] at hrecord
    rw [hrecord]
    show t.vm.Holds info e.sender.raw
    rw [hvm]
    exact storeMsg_eq_ok hstore
  · exact absurd hinfo hzero

/-- `drop` takes the head of the caller's queue and wakes the sender that the stored message names. -/
theorem dropHead_moves (hk : k.Sound) (hlive : k.live caller = true)
    (hactive : caller = k.activeThread)
    (hA : ∀ e port, (info ≠ 0 → port = e.sender) → A (.take caller e port caller.pid)) :
    Moves A B (do
      let envelope ← messageRemove caller info
      record (.removed caller envelope)
      let sender := (← get).portToUid (IpcPort.ofRaw (← userWord info)) caller.pid
      runIf (envelope.payload ∧ sender ≠ 0) (schedulerAdd sender)
      syscallReturnSet eNONE) k := by
  refine .of_ok (fun _ k' h => ?_) fun err k' h he => ?_
  · simp only [bind_eq_ok, get_bind_apply] at h
    obtain ⟨e, t₁, hremove, _, t₂, hrecord, raw, t₃, hread, _, t₄, hwake, hret⟩ := h
    obtain ⟨⟨q, hqueue⟩, hb, -, hholds⟩ := dropHead_eq_ok hk hlive hremove hrecord
    have halike₃ : Alike t₂ t₃ := ((userWord_does _).still.ok hread).toQuiet.spares
    have halike₄ : Alike t₄ k' := ((syscallReturnSet_does _).still.ok hret).toQuiet.spares
    -- The port is read back from where the message has just been stored.
    have hport : info ≠ 0 → IpcPort.ofRaw raw = e.sender := by
      intro hinfo
      rw [userWord_eq_ok hread, (hholds hinfo).1, IpcPort.ofRaw_raw]
    have hresolve : t₂.portToUid (IpcPort.ofRaw raw) caller.pid =
        k.mail.resolve (IpcPort.ofRaw raw) caller.pid := by
      rw [← Kernel.resolve_mail, hb.mail, Mail.resolve_log,
        Mail.resolve_modify (f := View.pop) fun _ => rfl]
    have hb₃ := hb.trans halike₃.becomes
    rw [hb.mail] at hb₃
    rw [runIf_eq_ok, hresolve] at hwake
    refine Good.alike ?_ halike₄
    rcases hwake with ⟨hcond, hadd⟩ | ⟨hnot, rfl⟩
    · obtain ⟨hl, hstate, -, hb₄, -⟩ := schedulerAdd_becomes hadd
      rw [hb₃.mail] at hb₄
      have hall := hb₃.trans hb₄
      obtain ⟨w, hw, hws⟩ := hb₃.state_pop hl
      refine Becomes.one (.take caller e (IpcPort.ofRaw raw) caller.pid) ?_
        ⟨⟨_, q, Kernel.view_of_live hlive, hqueue⟩, fun _ _ => ⟨w, hw, by rwa [hws]⟩⟩ (hA _ _ hport)
      rw [Mail.apply, Mail.wakeFor, Mail.resolve_log, Mail.resolve_modify (f := View.pop) fun _ => rfl,
        if_pos hcond]
      exact hall
    · rw [← Mail.apply_take_of_not hnot] at hb₃
      exact Becomes.one _ hb₃ ⟨⟨_, q, Kernel.view_of_live hlive, hqueue⟩,
        fun hp hr => absurd ⟨hp, hr⟩ hnot⟩ (hA _ _ hport)
  · subst he
    rcases bind_eq_error.mp h with h | ⟨e, t₁, hremove, h⟩
    · obtain ⟨hstuck, htask⟩ := messageRemove_fault hk.linked hlive h
      refine Or.inr ⟨[], _, .nil _, ?_⟩
      rw [htask.active, ← hactive]
      exact hstuck
    rcases bind_eq_error.mp h with h | ⟨_, t₂, hrecord, h⟩
    · cases h
    obtain ⟨⟨q, hqueue⟩, hb, hw, hholds⟩ := dropHead_eq_ok hk hlive hremove hrecord
    rw [get_bind_apply] at h
    rcases bind_eq_error.mp h with h | ⟨_, _, _, h⟩
    · -- `info` is `NULL` and nothing is mapped there: the message is gone, its sender not woken.
      have hzero : ¬(info ≠ 0) := fun hinfo => by
        obtain ⟨_, hok⟩ := (hholds hinfo).userWord
        rw [hok] at h
        cases h
      have halike : Alike t₂ k' := ((userWord_does _).still.error h).toQuiet.spares
      have hnot : ¬(e.payload = true ∧ k.mail.resolve nowhere caller.pid ≠ 0) :=
        fun hc => hc.2 (Kernel.resolve_nowhere _)
      rw [← Mail.apply_take_of_not hnot] at hb
      have hb' := hb.trans halike.becomes
      rw [hb.mail] at hb'
      have hvalid : k.mail.Valid (.take caller e nowhere caller.pid) :=
        ⟨⟨_, q, Kernel.view_of_live hlive, hqueue⟩, fun hp hr => absurd ⟨hp, hr⟩ hnot⟩
      refine Or.inr ⟨_, _, Mail.Runs.one hvalid
        (hA e nowhere fun hinfo => absurd hinfo hzero), ?_⟩
      exact hb'.stuck (hw.trans halike.gone halike.becomes.closed halike.steady) hk.linked _
    · exact absurd h (Never.bind (.runIf (schedulerAdd_does _).noFault) (fun _ => .modify _) _ _)

end Drop

theorem syscallDrop_moves {info : Word} (hk : k.Sound)
    (hA : ∀ e port, (info ≠ 0 → port = e.sender) →
      A (.take k.schedulerCurr e port k.schedulerCurr.pid)) : Moves A B (syscallDrop info) k := by
  refine .get (.read (virtualIsMapped_does _ _ _).still hk fun mapped t₁ _ hst₁ hs => ?_)
  refine .ite (fun _ => .ret _ hs) fun _ => ?_
  refine .read (derefThread_does _).still hs fun thread t₂ hderef _ hs => ?_
  obtain ⟨hlive, -, rfl⟩ := derefThread_eq_ok.mp hderef
  have hlive₀ : k.live k.schedulerCurr = true := by
    rw [← hst₁.toQuiet.live]
    exact hlive
  refine .ite (fun _ => .ret _ hs) fun _ => ?_
  exact dropHead_moves hs hlive ((Kernel.curr_of_live hlive₀).1.trans hst₁.active.symm) hA

end Horizon
