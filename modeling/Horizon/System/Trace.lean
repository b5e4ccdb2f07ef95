import Horizon.System.Simulation

/-!
# Horizon — whole events as moves

The remaining handlers, the recovery from page faults inside the kernel, and the theorem all
properties of message passing rest on: an event that does not wake a thread with an untouched
queue leads from a sound state to a sound state, by moves the event allows
(`Kernel.step_progress`).
-/

namespace Horizon

open StateError

variable {k k' t t' : Kernel} {uid v c : ThreadUid} {A : Move → Prop} {m : Mail}
  {B : ThreadUid → IpcPort → Prop} {dead : ThreadUid → Bool} {pid : Pid}

/-- `t` is reached from `k` by allowed moves, with nothing left to worry about. -/
structure After (A : Move → Prop) (k t : Kernel) : Prop where
  runs : ∃ moves, Mail.Runs A k.mail moves t.mail
  becomes : Becomes k t t.mail
  steady : Steady k t

namespace After

theorem sound (h : After A k t) (hk : k.Sound) : t.Sound := h.becomes.sound hk

theorem good (h : After A k t) (hg : Good A B t k') : Good A B k k' := by
  obtain ⟨moves, hr⟩ := h.runs
  rcases hg with hw | ⟨moves', m, hr', hb⟩
  · exact Or.inl (hw.of_becomes h.becomes h.steady)
  · exact Or.inr ⟨moves ++ moves', m, hr.append hr', h.becomes.trans hb⟩

theorem faulty (h : After A k t) (hf : Faulty A t k') : Faulty A k k' := by
  obtain ⟨moves, hr⟩ := h.runs
  rcases hf with hlocked | ⟨moves', m, hr', hs⟩
  · exact Or.inl hlocked
  · exact Or.inr ⟨moves ++ moves', m, hr.append hr', ⟨hs.linked,
      fun hn => hs.named (h.becomes.named hn), hs.history, hs.view,
      fun u hu => h.becomes.live u (hs.live u hu),
      fun u hu hc => hs.closed u hu (h.becomes.closed u (hs.live u hu) hc),
      h.steady.trans hs.live hs.closed hs.steady⟩⟩

end After

/-- Dead threads leave the mail, in one move or none. -/
theorem Mail.Runs.kill {m₀ : Mail} {moves : List Move} (hr : Mail.Runs A m₀ moves m)
    (hA : A (.kill dead)) : ∃ moves', Mail.Runs A m₀ moves' (m.remove dead) := by
  by_cases hex : ∃ u, dead u = true ∧ (m.view u).isSome
  · exact ⟨moves ++ [.kill dead], hr.append (Mail.Runs.one (show m.Valid (.kill dead) from hex) hA)⟩
  · refine ⟨moves, ?_⟩
    have hsame : m.remove dead = m := by
      refine Mail.ext (funext fun u => ?_) rfl
      rw [view_remove]
      split
      · next hdead =>
        have hnone : ¬(m.view u).isSome := fun hs => hex ⟨u, hdead, hs⟩
        rw [Bool.not_eq_true, Option.isSome_eq_false_iff, Option.isNone_iff_eq_none] at hnone
        exact hnone.symm
      · rfl
    rwa [hsame]

theorem Kills.after (h : Kills dead k t) (hA : A (.kill dead)) : After A k t where
  runs := by
    rw [h.mail]
    exact Mail.Runs.kill (.nil _) hA
  becomes := by
    rw [h.mail]
    exact h.becomes
  steady := h.steady

/-! ## Killing the running thread -/

/-- A port that names a live thread named it before. -/
theorem Steady.portToUid {port : IpcPort} {parent : Pid} (h : Steady k t)
    (hgone : ∀ u, t.live u = true → k.live u = true)
    (hlive : t.live (t.portToUid port parent) = true) :
    k.portToUid port parent = t.portToUid port parent := by
  unfold Kernel.portToUid at hlive ⊢
  split
  · rfl
  · next hglobal =>
    rw [if_neg hglobal] at hlive
    split
    · rfl
    · next hversioned =>
      rw [if_neg hversioned] at hlive
      -- The thread is live and has the versions of the port.
      rw [Kernel.threadGet_eq] at hlive ⊢
      cases hthread : t.live { pid := port.pid, tid := port.tid } with
      | false =>
        rw [hthread] at hlive
        exact absurd hlive (by simp [Kernel.live, Kernel.liveProcess])
      | true =>
        have hport := h.port _ hthread
        have hpvn : (t.blocks port.pid).process.version = (k.blocks port.pid).process.version :=
          congrArg IpcPort.pvn hport
        have htvn : (t.thread { pid := port.pid, tid := port.tid }).version =
            (k.thread { pid := port.pid, tid := port.tid }).version := congrArg IpcPort.tvn hport
        rw [Kernel.threadGet_eq, hgone _ hthread]
        simp only [hthread, if_true, hpvn, htvn]

/-- A kernel message to the owner of a service, if there is one, is accounted for. -/
def Owned (B : ThreadUid → IpcPort → Prop) (svc : Nat) (k : Kernel) : Prop :=
  k.live (k.portToUid (k.serviceIds svc) 0) = true → B (k.portToUid (k.serviceIds svc) 0) .kernel

theorem Owned.of_steady {svc : Nat} (h : Owned B svc k) (hst : Steady k t)
    (hgone : ∀ u, t.live u = true → k.live u = true) : Owned B svc t := by
  intro hlive
  have hport := hst.portToUid hgone hlive
  rw [hst.services] at hlive hport ⊢
  rw [← hport] at hlive ⊢
  exact h (hgone _ hlive)

theorem Owned.of_alike {svc : Nat} (h : Owned B svc k) (ha : Alike k t) : Owned B svc t :=
  h.of_steady ha.steady ha.gone

theorem serviceGet_eq_ok {svc : Nat} {port : IpcPort} (h : serviceGet svc k = .ok port t) :
    port = k.serviceIds svc ∨ port = {} := by
  simp only [serviceGet, get_bind_apply, bind_eq_ok, dassert_eq_ok, ite_eq_ok, pure_eq_ok] at h
  obtain ⟨_, _, ⟨-, rfl⟩, h⟩ := h
  rcases h with ⟨-, h, -⟩ | ⟨-, ⟨-, _, _, -, h, -⟩ | ⟨-, h, -⟩⟩
  · exact Or.inl h.symm
  · exact Or.inr h.symm
  · exact Or.inr h.symm

/-- A kernel message for whoever owns a service, if anyone does. -/
theorem notify_moves {svc : Nat} {code : Word} {args : MsgArgs} (hk : k.Sound)
    (hA : ∀ v info, A (.ksend v info)) (hB : Owned B svc k) : Moves A B (do
      let port ← serviceGet svc
      if port = {} then return
      internalKsend port code args) k := by
  refine .read (serviceGet_does _).still hk fun port t h hst hs => ?_
  refine .ite (fun _ => .still (.pure _) hs) fun hne => internalKsend_moves hs hA ?_
  obtain rfl := (serviceGet_eq_ok h).resolve_right hne
  have halike : Alike k t := hst.toQuiet.spares
  rw [halike.portToUid, halike.live _ rfl]
  exact hB

/-- An exception handler, entered from a sound state or from a page fault in the kernel. -/
theorem killRunning_recovers (hf : Faulty A k t) (hk : k.Sound) (hkill : ∀ dead, A (.kill dead))
    (hksend : ∀ v info, A (.ksend v info)) (hB : Owned B svcProcmgr k) :
    Post (fun _ k' => Good A B k k') (fun e k' => e = .pageFault → Faulty A k k')
      (killRunning t) := by
  rw [killRunning, get_bind_apply]
  refine Post.bind (Q := fun _ s => internalTkill t.schedulerCurr t = .ok () s)
    (.of_ok (fun _ _ h => h) fun e s h he => ?_) fun _ s h => ?_
  · subst he
    exact absurd h ((internalTkill_does _).noFault _ _)
  rcases hf with hlocked | ⟨moves, m, hr, hs⟩
  · rw [Kernel.schedulerCurr, if_pos hlocked] at h
    exact absurd h internalTkill_zero
  · by_cases hlocked : t.locked = true
    · rw [Kernel.schedulerCurr, if_pos hlocked] at h
      exact absurd h internalTkill_zero
    have hcurr : t.schedulerCurr = t.activeThread := if_neg hlocked
    have hkills := internalTkill_eq_ok h
    rw [← hcurr] at hs
    obtain ⟨hb, hw⟩ := hs.kill hkills (killSet_self _)
    have hafter : After A k s := by
      refine ⟨?_, ?_, hw⟩
      · rw [hb.mail]
        exact Mail.Runs.kill hr (hkill _)
      · rwa [hb.mail]
    refine .ite (fun _ => ?_) fun _ => ?_
    · exact hafter.good (Spares.refl s).good
    · have hnotify : Moves A B (notifyProcmgr (t.schedulerCurr.pid.setWidth 32)) s :=
        notify_moves (hafter.sound hk) hksend (hB.of_steady hafter.steady hafter.becomes.live)
      exact hnotify.mono (fun _ _ hg => hafter.good hg) fun _ _ hfault he =>
        hafter.faulty (hfault he)

/-- What holds of every outcome of a handler, and again after each page fault, holds at the end. -/
theorem recover_post {Q F : Kernel → Prop} {fuel : Nat} {r : EStateM.Result Fault Kernel Unit}
    (hr : Post (fun _ k' => Q k') (fun e k' => e = .pageFault → F k') r) (hfault : ∀ t, F t →
      Post (fun _ k' => Q k') (fun e k' => e = .pageFault → F k') (exceptionPagefault t))
    (h : recover fuel r = some k') : Q k' := by
  induction fuel generalizing r with
  | zero =>
    cases r with
    | ok _ t =>
      cases h
      exact hr
    | error e t => cases e <;> cases h
  | succ fuel ih =>
    cases r with
    | ok _ t =>
      cases h
      exact hr
    | error e t =>
      cases e with
      | pageFault => exact ih (hfault t (hr rfl)) h
      | _ => cases h

/-- Following page faults inside the kernel ends in a state reached by allowed moves. -/
theorem recover_good {fuel : Nat} {r : EStateM.Result Fault Kernel Unit} (hk : k.Sound)
    (hkill : ∀ dead, A (.kill dead)) (hksend : ∀ v info, A (.ksend v info))
    (hB : Owned B svcProcmgr k)
    (hr : Post (fun _ k' => Good A B k k') (fun e k' => e = .pageFault → Faulty A k k') r)
    (h : recover fuel r = some k') : Good A B k k' :=
  recover_post hr (fun _ hf => killRunning_recovers hf hk hkill hksend hB) h

/-! ## The other system calls -/

namespace Moves

variable {α : Type}

theorem skip {x : KernelM α} {f : α → KernelM Unit} (hx : Ensures Quiet x) (hk : k.Sound)
    (hf : ∀ a t, x k = .ok a t → t.Sound → Moves A B (f a) t) : Moves A B (x >>= f) k := by
  refine Post.bind (Q := fun a t => x k = .ok a t) (.of_ok (fun a t h => h) fun e t h he => ?_)
    fun a t h => ?_
  · exact (hx.error h).spares.faulty hk
  · have halike : Alike k t := (hx.ok h).spares
    exact (hf a t h (halike.sound hk)).mono (fun _ _ hg => halike.good_trans hg)
      fun _ _ hfault he => halike.faulty_trans (hfault he)

theorem after {x : KernelM α} {f : α → KernelM Unit} (hk : k.Sound)
    (hx : ∀ a t, x k = .ok a t → After A k t) (hnf : Never .pageFault x)
    (hf : ∀ a t, x k = .ok a t → t.Sound → Moves A B (f a) t) : Moves A B (x >>= f) k := by
  refine Post.bind (Q := fun a t => x k = .ok a t) (.of_ok (fun a t h => h) fun e t h he => ?_)
    fun a t h => ?_
  · subst he
    exact absurd h (hnf _ _)
  · have hafter := hx a t h
    exact (hf a t h (hafter.sound hk)).mono (fun _ _ hg => hafter.good hg)
      fun _ _ hfault he => hafter.faulty (hfault he)

end Moves

theorem syscallKill_moves {pid : BitVec 16} (hk : k.Sound) (hkill : ∀ dead, A (.kill dead))
    (hksend : ∀ v info, A (.ksend v info))
    (hB : Owned B svcProcmgr k) : Moves A B (syscallKill pid) k := by
  refine .get (.get (.skip ?_ hk fun pid t h hs => .get ?_))
  · exact .ite (.pure _) (.bind (.orThrow _ _) fun _ => .pure _)
  replace hB := hB.of_alike (Quiet.spares (Ensures.ok ?_ h))
  rotate_left
  · exact .ite (.pure _) (.bind (.orThrow _ _) fun _ => .pure _)
  refine .ite (fun _ => .ret _ hs) fun _ => ?_
  refine .skip (.orThrow _ _) hs fun target t h hs => ?_
  obtain ⟨-, rfl⟩ := orThrow_eq_ok.mp h
  refine .skip (.orThrow _ _) hs fun owner t h hs => ?_
  obtain ⟨-, rfl⟩ := orThrow_eq_ok.mp h
  refine .ite (fun _ => .ret _ hs) fun _ => ?_
  refine .skip (.runIf schedulerLock_does.quiet) hs fun _ t h hs => ?_
  replace hB := hB.of_alike ((Ensures.runIf schedulerLock_does.quiet).ok h).spares
  refine .after hs (fun _ _ h => (purgeAndKill_eq_ok h).after (hkill _)) (purgeAndKill_does _).noFault
    fun _ t h hs => ?_
  replace hB := hB.of_steady (purgeAndKill_eq_ok h).steady (purgeAndKill_eq_ok h).gone
  refine .skip (unlockOrReturn_does.quiet) hs fun _ t h hs => notify_moves hs hksend ?_
  exact hB.of_alike (unlockOrReturn_does.quiet.ok h).spares

theorem syscallRelease_moves {tid : BitVec 8} (hk : k.Sound) (hkill : ∀ dead, A (.kill dead)) :
    Moves A B (syscallRelease tid) k := by
  refine .get (.ite (fun _ => .ret _ hk) fun _ => .get ?_)
  refine .ite (fun _ => .ret _ hk) fun _ => ?_
  refine .skip (.runIf schedulerLock_does.quiet) hk fun _ t _ hs => ?_
  refine .after hs (fun _ _ h => ?_) (threadKill_does _).noFault fun _ t _ hs =>
    .quiet (unlockOrReturn_does.quiet) hs
  obtain ⟨-, rfl⟩ := threadKill_eq_ok h
  exact freeThread_kills.after (hkill _)

theorem syscallSpawn_moves (hk : k.Sound) : Moves A B syscallSpawn k := by
  refine .get (.after hk (fun pid t h => ?_) (processNew_does _ _).noFault fun _ t _ hs => .ret _ hs)
  have halike := (processNew_eq_ok h).alike
  refine ⟨⟨[], ?_⟩, ?_, halike.steady⟩
  · rw [halike.mail]
    exact .nil _
  · rw [halike.mail]
    exact halike.becomes

theorem syscallPeek_moves (hk : k.Sound) : Moves A B syscallPeek k := by
  refine .get (.read (derefThread_does _).still hk fun thread t hderef _ hs => ?_)
  obtain ⟨hlive, -, rfl⟩ := derefThread_eq_ok.mp hderef
  refine .ite (fun _ => .ret _ hs) fun _ => ?_
  refine Post.bind (Q := fun _ t => k = t) (.of_ok (fun _ _ h => (messagePeek_eq_ok hs.linked hlive
    h).1) fun e t' h he => ?_) fun ⟨port, hasPayload⟩ t h => ?_
  · subst he
    exact absurd h ((messagePeek_does _).noFault _ _)
  · subst h
    refine Moves.get (.ite (fun _ => ?_) fun _ => .ret _ hs)
    exact .read (derefThread_does _).still hs fun _ t _ _ hs => .ret _ hs

/-! ## Services and interrupts -/

theorem serviceRegister_becomes {svc : Nat} (h : serviceRegister svc uid k = .ok () k') :
    Becomes k k' k.mail := by
  simp only [serviceRegister, get_bind_apply, modify_bind_apply, bind_eq_ok] at h
  obtain ⟨_, t₁, h₁, _, t₂, h₂, _, t₃, h₃, _, t₄, h₄, port, t₅, h₅, h⟩ := h
  have halike : Alike k t₅ :=
    ((dassert_does _).still.ok h₁).toQuiet.spares.trans <|
      ((serviceGet_does _).still.ok h₂).toQuiet.spares.trans <|
        ((dassert_does _).still.ok h₃).toQuiet.spares.trans <|
          ((dassertSome_does _).still.ok h₄).toQuiet.spares.trans
            ((portFromUid_does _).still.ok h₅).toQuiet.spares
  have hset : Becomes t₅ { t₅ with serviceIds := Function.update t₅.serviceIds svc port } t₅.mail :=
    ⟨rfl, id, id, fun _ hu => hu, fun _ _ hc => hc⟩
  have hrest : Alike { t₅ with serviceIds := Function.update t₅.serviceIds svc port } k' :=
    (Ensures.ok (.ite (irqSet_does _ _ _).quiet (.pure _)) h).spares
  have hall := halike.becomes.trans (hset.trans hrest.becomes)
  rwa [hset.mail, halike.mail] at hall

theorem syscallSvcown_moves {svc : Word} (hk : k.Sound) : Moves A B (syscallSvcown svc) k := by
  refine .ite (fun _ => .ret _ hk) fun _ => .read (serviceGet_does _).still hk fun _ t _ _ hs => ?_
  refine .ite (fun _ => .ret _ hs) fun _ => .get ?_
  refine .read (derefProcess_does _).still hs fun _ t _ _ hs => .ite (fun _ => .ret _ hs) fun _ => ?_
  refine .of_ok (fun _ k' h => ?_) fun e k' h he => ?_
  · obtain ⟨_, t', hregister, hret⟩ := bind_eq_ok.mp h
    have halike : Alike t' k' := ((syscallReturnSet_does _).still.ok hret).toQuiet.spares
    exact ((serviceRegister_becomes hregister).good (.nil _)).alike halike
  · subst he
    rcases bind_eq_error.mp h with h | ⟨_, _, _, h⟩
    · exact absurd h ((serviceRegister_does _ _).noFault _ _)
    · cases h

theorem syscallSvcid_moves {svc : Word} (hk : k.Sound) : Moves A B (syscallSvcid svc) k :=
  .ite (fun _ => .ret _ hk) fun _ => .read (serviceGet_does _).still hk fun _ _ _ _ hs => .ret _ hs

theorem runIrq_moves {line : Nat} (hk : k.Sound) (hksend : ∀ v info, A (.ksend v info))
    (hB : Owned B line k) : Moves A B (runIrq line) k := by
  refine .get (.ite (fun _ => ?_) fun _ => .still (.pure _) hk)
  cases k.irqHandle line with
  | none => exact .still (.pure _) hk
  | timerTick => exact .quiet (timerTick_does.quiet) hk
  | irqCallback => exact notify_moves hk hksend hB

/-! ## New threads -/

/-- What an event that creates a thread has done when it returns. -/
structure Progress (k : Kernel) (ev : Event) (k' : Kernel) : Prop where
  sound : k'.Sound
  named : k.Named → k'.Named
  runs : ∃ moves, Mail.Runs (k.Allowed ev) k.mail moves k'.mail
  kept : ev.creates = false → ∀ u, k'.live u = true →
    k.live u = true ∧ (k.Closed u → k'.Closed u)

/-- A thread has been created and made active, or nothing has happened. -/
inductive Starts (k k' : Kernel) : Prop
  | refused (h : Alike k k')
  | started (uid : ThreadUid) (t t' : Kernel) (hnew : Creates uid k t)
      (hadd : schedulerAdd uid t = .ok () t') (h : Alike t' k')

theorem Creates.of_alike (h₁ : Alike k t) (h₂ : Creates uid t k') : Creates uid k k' where
  free := (h₁.live uid rfl).symm.trans h₂.free
  live v := by rw [h₂.live, h₁.live v rfl]
  linked hk := h₂.linked (h₁.linked hk)
  named hk := h₂.named (h₁.named hk)
  history := h₂.history.trans h₁.history
  new := by
    obtain ⟨port, hview, hport, htid⟩ := h₂.new
    exact ⟨port, hview, fun hk => hport (h₁.named hk), htid⟩
  other v hv hd := (h₂.other v hv hd).trans (congrArg (fun m : Mail => m.view v) h₁.mail)

theorem Starts.of_alike (h₁ : Alike k t) (h₂ : Starts t k') : Starts k k' := by
  cases h₂ with
  | refused h => exact .refused (h₁.trans h)
  | started uid t' t'' hnew hadd h => exact .started uid t' t'' (.of_alike h₁ hnew) hadd h

theorem Starts.progress {ev : Event} (h : Starts k k') (hk : k.Sound) (hev : ev.creates = true) :
    Progress k ev k' := by
  cases h with
  | refused h =>
    refine ⟨h.sound hk, h.named, ⟨[], ?_⟩, fun hno => absurd hev (by rw [hno]; decide)⟩
    rw [h.mail]
    exact .nil _
  | started uid t t' hnew hadd h =>
    obtain ⟨hlive, -, -, hb, -⟩ := schedulerAdd_becomes hadd
    have hsound : t.Sound := ⟨hnew.linked hk.linked⟩
    refine ⟨h.sound (hb.sound hsound), fun hn => h.named (hb.named (hnew.named hn)), ?_,
      fun hno => absurd hev (by rw [hno]; decide)⟩
    obtain ⟨port, hport, hpid, htid⟩ := hnew.new
    -- The threads above the new one are seen through whatever is left of their control blocks.
    let damage : ThreadUid → View → View := fun v w =>
      if v.pid = uid.pid ∧ uid.tid < v.tid then (t.view v).getD w else w
    have hmail : k'.mail = k.mail.apply (.create uid port damage) := by
      rw [h.mail, hb.mail]
      refine Mail.ext (funext fun v => ?_) hnew.history
      rw [Mail.view_modify]
      by_cases hv : v = uid
      · subst hv
        rw [if_pos rfl]
        exact (congrArg (Option.map View.wake) hport).trans (if_pos rfl).symm
      · rw [if_neg hv]
        refine Eq.trans ?_ (if_neg hv).symm
        by_cases hd : v.pid = uid.pid ∧ uid.tid < v.tid
        · have hsame : t.live v = k.live v := by
            rw [hnew.live, decide_eq_false hv, Bool.false_or]
          cases hlv : k.live v with
          | false =>
            exact (Kernel.view_of_not_live (hsame.trans hlv)).trans
              (congrArg (Option.map (damage v)) (Kernel.view_of_not_live hlv)).symm
          | true =>
            refine Eq.trans ?_
              (congrArg (Option.map (damage v)) (Kernel.view_of_live hlv)).symm
            change t.view v = some (damage v _)
            simp only [damage, if_pos hd]
            rw [Kernel.view_of_live (hsame.trans hlv)]
            rfl
        · refine (hnew.other v hv hd).trans ?_
          have hid : damage v = id := funext fun w => if_neg hd
          change k.view v = (k.view v).map (damage v)
          rw [hid, Option.map_id, id]
    refine ⟨[.create uid port damage], ?_⟩
    rw [hmail]
    exact .one (Kernel.view_of_not_live hnew.free)
      ⟨hev, hpid, htid, fun v w hd => if_neg hd⟩

theorem syscallLaunch_starts {pid : BitVec 16} {entry : Word}
    (h : syscallLaunch pid entry k = .ok () k') : Starts k k' := by
  have hret : ∀ {t val}, syscallReturnSet val t = .ok () k' → Alike t k' :=
    fun h => ((syscallReturnSet_does _).still.ok h).toQuiet.spares
  simp only [syscallLaunch, get_bind_apply, ite_eq_ok, bind_eq_ok, orThrow_eq_ok] at h
  rcases h with ⟨-, h⟩ | ⟨-, _, _, ⟨-, rfl⟩, h⟩
  · exact .refused (hret h)
  rcases h with ⟨-, h⟩ | ⟨-, _, _, ⟨-, rfl⟩, h⟩
  · exact .refused (hret h)
  rcases h with ⟨-, h⟩ | ⟨-, _, t₁, hentry, uid, t₂, hnew, _, t₃, hadd, h⟩
  · exact .refused (hret h)
  have halike : Alike k t₁ :=
    ((Does.change fun _ => .entry ..).spares).ok hentry
  exact .of_alike halike (.started uid t₂ t₃ (threadNew_creates hnew).2 hadd (hret h))

theorem syscallDispatch_starts {entry stack : Word}
    (h : syscallDispatch entry stack k = .ok () k') : Starts k k' := by
  simp only [syscallDispatch, get_bind_apply, bind_eq_ok] at h
  obtain ⟨uid, t₁, hnew, _, t₂, hderef, _, t₃, hstack, _, t₄, hadd, h⟩ := h
  have halike : Alike t₁ t₃ :=
    ((derefThread_does _).still.ok hderef).toQuiet.spares.trans
      ((Does.change fun _ => .task ..).spares.ok hstack)
  exact .started uid t₃ t₄ ((threadNew_creates hnew).2.trans_alike halike) hadd
    ((syscallReturnSet_does _).still.ok h).toQuiet.spares

/-! ## Events -/

section Events

variable {ev : Event} {frame : IntFrame} {input : Word}

theorem run_moves {call : Syscall} (hev : ev.call = some call) (hcreate : ev.creates = false)
    (hk : k.Sound) : Moves (k.Allowed ev) (k.Hands ev) (call.run input) k := by
  have hkill : ∀ dead, k.Allowed ev (.kill dead) := fun _ => hcreate
  have hksend : ∀ v info, k.Allowed ev (.ksend v info) := fun _ _ => hcreate
  have hprocmgr : Owned (k.Hands ev) svcProcmgr k := fun _ =>
    Or.inr ⟨rfl, Or.inr (Or.inr ⟨hcreate, rfl⟩)⟩
  cases call with
  | spawn => exact syscallSpawn_moves hk
  | launch _ _ => simp [Event.creates, hev] at hcreate
  | dispatch _ _ => simp [Event.creates, hev] at hcreate
  | release tid => exact syscallRelease_moves hk hkill
  | kill pid => exact syscallKill_moves hk hkill hksend hprocmgr
  | yield =>
    exact .read (syscallReturnSet_does _).still hk fun _ _ _ _ hs => .quiet (schedulerNext_does.quiet) hs
  | wait port => exact syscallWait_moves hk ⟨rfl, hev⟩ ⟨rfl, hev⟩
  | vmap dest size => exact .still (syscallVmap_does _ _).still hk
  | pmap dest src size => exact .still (syscallPmap_does _ _ _).still hk
  | unmap addr size => exact .still (syscallUnmap_does _ _).still hk
  | grant info dest => exact .still (syscallGrant_does _ _).still hk
  | share info => exact .still (syscallShare_does _).still hk
  | accept sid dest size => exact .still (syscallAccept_does _ _ _).still hk
  | send src =>
    exact syscallSend_moves hk (fun _ => ⟨rfl, src, hev, rfl⟩) (Or.inl ⟨src, hev, rfl, rfl⟩)
  | recv dest =>
    exact syscallRecv_moves hk (fun _ => ⟨rfl, Or.inl ⟨dest, hev, rfl⟩⟩)
      fun _ => ⟨rfl, rfl, dest, hev⟩
  | peek => exact syscallPeek_moves hk
  | drop info => exact syscallDrop_moves hk fun _ _ hport => ⟨rfl, Or.inr ⟨info, hev, hport⟩⟩
  | svcown svc => exact syscallSvcown_moves hk
  | svcid svc => exact syscallSvcid_moves hk
  | sysio action arg data => exact .ret _ hk

theorem handle_moves (hcreate : ev.creates = false) (hk : k.Sound) :
    Moves (k.Allowed ev) (k.Hands ev) ev.handle k := by
  have hkill : ∀ dead, k.Allowed ev (.kill dead) := fun _ => hcreate
  have hksend : ∀ v info, k.Allowed ev (.ksend v info) := fun _ _ => hcreate
  have hprocmgr : Owned (k.Hands ev) svcProcmgr k := fun _ =>
    Or.inr ⟨rfl, Or.inr (Or.inr ⟨hcreate, rfl⟩)⟩
  cases ev with
  | syscall frame input =>
    refine .read (enter_does _).still hk fun _ t h _ hs => ?_
    cases hcall : Syscall.decode frame with
    | none => exact .still (.pure _) hs
    | some call =>
      obtain rfl := modify_eq_ok.mp h
      exact run_moves hcall hcreate hs
  | irq frame line =>
    refine .read (enter_does _).still hk fun _ t h _ hs => runIrq_moves hs hksend ?_
    obtain rfl := modify_eq_ok.mp h
    exact fun _ => Or.inr ⟨rfl, Or.inr (Or.inl ⟨frame, line, rfl, rfl⟩)⟩
  | userfault frame =>
    have halike : Alike k { k with frame := frame } := ((enter_does frame).still.ok rfl).toQuiet.spares
    exact killRunning_recovers (halike.faulty hk) hk hkill hksend hprocmgr
  | pagefault frame =>
    have halike : Alike k { k with frame := frame } := ((enter_does frame).still.ok rfl).toQuiet.spares
    exact killRunning_recovers (halike.faulty hk) hk hkill hksend hprocmgr
  | ksend port code args =>
    exact internalKsend_moves hk hksend fun _ => Or.inr ⟨rfl, Or.inl ⟨port, code, args, rfl, rfl⟩⟩
  | store addr byte => exact .still (userStore_does _ _).still hk

theorem recover_of_noFault {fuel : Nat} {r : EStateM.Result Fault Kernel Unit}
    (hr : ∀ t, r ≠ .error .pageFault t) (h : recover fuel r = some k') : r = .ok () k' := by
  cases r with
  | ok _ t =>
    cases fuel <;> cases h <;> rfl
  | error e t =>
    cases e with
    | pageFault => exact absurd rfl (hr t)
    | _ => cases fuel <;> cases h

theorem step_starts (hcreate : ev.creates = true) (h : k.step ev = some k') : Starts k k' := by
  cases ev with
  | syscall frame input =>
    have halike : Alike k { k with frame := frame } := ((enter_does frame).still.ok rfl).toQuiet.spares
    cases hcall : Syscall.decode frame with
    | none => simp [Event.creates, Event.call, hcall] at hcreate
    | some call =>
      have hstep : recover faultFuel (call.run input { k with frame := frame }) = some k' := by
        rw [Kernel.step, Event.handle, enter, modify_bind_apply, hcall] at h
        exact h
      cases call with
      | launch pid entry =>
        exact .of_alike halike (syscallLaunch_starts
          (recover_of_noFault ((syscallLaunch_does _ _).noFault _) hstep))
      | dispatch entry stack =>
        exact .of_alike halike (syscallDispatch_starts
          (recover_of_noFault ((syscallDispatch_does _ _).noFault _) hstep))
      | _ => simp [Event.creates, Event.call, hcall] at hcreate
  | _ => cases hcreate

/-- One event: unless it hands a message to a thread that waits for it on an untouched queue, it
leads to a sound state, by moves that it allows. -/
theorem Kernel.step_progress (hk : k.Sound) (h : k.step ev = some k')
    (hw : ¬FirstWake (k.Hands ev) k) : Progress k ev k' := by
  cases hcreate : ev.creates with
  | true => exact (step_starts hcreate h).progress hk hcreate
  | false =>
    have hgood : Good (k.Allowed ev) (k.Hands ev) k k' :=
      recover_good hk (fun _ => hcreate) (fun _ _ => hcreate)
        (fun _ => Or.inr ⟨rfl, Or.inr (Or.inr ⟨hcreate, rfl⟩)⟩) (handle_moves hcreate hk) h
    rcases hgood with hfresh | ⟨moves, m, hr, hb⟩
    · exact absurd hfresh hw
    · rw [← hb.mail] at hr
      exact ⟨hb.sound hk, hb.named, ⟨moves, hr⟩, fun _ u hu => ⟨hb.live u hu, hb.closed u hu⟩⟩

end Events

end Horizon
