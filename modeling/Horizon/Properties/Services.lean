import Horizon.System.RegistryTrace

/-!
# Horizon — the owner of a service

Who owns a service is recorded as a port, which nobody clears when the owner dies. We carry
along a run who registered last for each service and is still alive (`ownStep`), and show that
this is what `service_get` answers: the port of the owner while the owner lives, zero after.

The argument is one about the registry. A live owner has the recorded port. The port of a dead
one has gone, for both of its slots only move on as long as no counter is used up.
-/

namespace Horizon

open StateError

variable {k k' k₀ : Kernel} {ev : Event} {evs : List Event} {svc : Nat} {u : ThreadUid}

/-! ## Owners in the registry -/

namespace Registry

variable {R R' : Registry} {op : RegistryOp} {ops : List RegistryOp} {owner : Option ThreadUid}

/-- The port recorded for a service is that of its live owner, or names nobody for good. -/
def OwnedBy (R : Registry) (svc : Nat) : Option ThreadUid → Prop
  | some u => R.port u = some (R.service svc)
  | none => R.service svc = {} ∨ (R.service svc).unversioned = false ∧ R.Gone (R.service svc)

theorem service_apply (h : ∀ u, op ≠ .register svc u) :
    (R.apply op).service svc = R.service svc := by
  cases op with
  | register s u => exact if_neg fun hs => h u (by rw [hs])
  | _ => rfl

theorem Versioned.port_versioned (hR : R.Versioned) {port : IpcPort}
    (hport : R.port u = some port) : port.unversioned = false := by
  obtain ⟨p, hp, hmap⟩ := Option.bind_eq_some_iff.mp hport
  obtain ⟨t, -, rfl⟩ := Option.map_eq_some_iff.mp hmap
  exact decide_eq_false fun h => hR.process _ _ hp h.1

theorem thread_isSome_of_port {port : IpcPort} (h : R.port u = some port) :
    (R.thread u).isSome = true := by
  obtain ⟨p, -, hmap⟩ := Option.bind_eq_some_iff.mp h
  obtain ⟨t, ht, -⟩ := Option.map_eq_some_iff.mp hmap
  rw [ht]
  rfl

/-- The owner, if still alive. -/
def surviving (R : Registry) (owner : Option ThreadUid) : Option ThreadUid :=
  owner.filter fun u => (R.thread u).isSome

theorem surviving_live (h : (R.thread u).isSome = true) : R.surviving (some u) = some u := by
  rw [surviving, Option.filter_some, if_pos h]

theorem surviving_dead (h : R.thread u = none) : R.surviving (some u) = none := by
  rw [surviving, Option.filter_some, h]
  rfl

theorem OwnedBy.surviving_eq (h : R.OwnedBy svc owner) : R.surviving owner = owner := by
  cases owner with
  | none => rfl
  | some u => exact surviving_live (thread_isSome_of_port h)

theorem thread_apply_none (h : R.thread u = none) (hcreate : ∀ v, op ≠ .create v) :
    (R.apply op).thread u = none := by
  cases op with
  | create v => exact absurd rfl (hcreate v)
  | exit v => exact ite_eq_left_iff.mpr fun _ => h
  | kill pid => exact ite_eq_left_iff.mpr fun _ => h
  | _ => exact h

theorem surviving_surviving (hcreate : ∀ v, op ≠ .create v) :
    (R.apply op).surviving (R.surviving owner) = (R.apply op).surviving owner := by
  cases owner with
  | none => rfl
  | some u =>
    cases h : R.thread u with
    | none => rw [surviving_dead h, surviving_dead (thread_apply_none h hcreate)]; rfl
    | some t => rw [surviving_live (by rw [h]; rfl)]

/-- What a run keeps, apart from the owners. -/
structure Sound (R : Registry) : Prop extends Intact R, Versioned R

/-- An operation that the kernel has checked, on records, with counters that are not used up. -/
structure Proper (R : Registry) (op : RegistryOp) : Prop where
  valid : R.Valid op
  keeps : R.Keeps op
  fresh : R.Fresh op

theorem Sound.apply (hR : R.Sound) (hop : R.Proper op) : (R.apply op).Sound :=
  ⟨hR.toIntact.apply hop.valid hop.keeps, hR.toVersioned.apply hop.keeps hop.fresh⟩

theorem OwnedBy.apply (h : R.OwnedBy svc owner) (hR : R.Sound) (hop : R.Proper op)
    (hregister : ∀ u, op ≠ .register svc u) :
    (R.apply op).OwnedBy svc ((R.apply op).surviving owner) := by
  cases owner with
  | none =>
    show _ ∨ _
    rw [service_apply hregister]
    exact h.imp_right fun hgone => ⟨hgone.1, hgone.2.apply hop.valid hop.keeps hop.fresh⟩
  | some u =>
    have hport : R.port u = some (R.service svc) := h
    rcases hR.toIntact.port_apply hport hop.valid hop.keeps with hsame | ⟨hdead, hgone⟩
    · rw [surviving_live (thread_isSome_of_port hsame), OwnedBy, service_apply hregister]
      exact hsame
    · rw [surviving_dead hdead, OwnedBy, service_apply hregister]
      exact Or.inr ⟨hR.toVersioned.port_versioned hport, hgone⟩

/-- In a run that creates no thread the owner stays, or dies and does not come back. -/
theorem OwnedBy.run (hrun : Runs (fun R op => R.Proper op ∧ (∀ v, op ≠ .create v) ∧
      ∀ v, op ≠ .register svc v) R ops R') (hR : R.Sound) (h : R.OwnedBy svc owner) :
    R'.OwnedBy svc (R'.surviving owner) := by
  have hkeep : R'.Sound ∧ R'.OwnedBy svc (R'.surviving owner) := by
    refine Steps.invariant (I := fun S => S.Sound ∧ S.OwnedBy svc (S.surviving owner)) ?_ hrun
      ⟨hR, by rwa [h.surviving_eq]⟩
    rintro S op _ ⟨hS, howner⟩ hstep ⟨-, hop, hcreate, hregister⟩
    cases hstep
    rw [← surviving_surviving hcreate]
    exact ⟨hS.apply hop, howner.apply hS hop hregister⟩
  exact hkeep.2

/-- A new owner is alive, and its port is recorded. -/
theorem ownedBy_register (hvalid : R.Valid (.register svc u)) :
    (R.apply (.register svc u)).OwnedBy svc (some u) := by
  obtain ⟨port, hport⟩ := Option.isSome_iff_exists.mp hvalid.1
  have hservice : (R.apply (.register svc u)).service svc = (R.port u).getD {} := if_pos rfl
  rw [OwnedBy, hservice, hport]
  exact hport

end Registry

/-! ## Owners in a run of the kernel -/

/-- The service the event registers for. -/
def Event.registersFor (ev : Event) : Option Nat :=
  match ev.call with
  | some (.svcown svc) => some svc.toNat
  | _ => none

/-- One event, with the threads that registered last for each service and are still alive. -/
def ownStep (s : Kernel × (Nat → Option ThreadUid)) (ev : Event) :
    Option (Kernel × (Nat → Option ThreadUid)) :=
  (s.1.step ev).map fun k' => (k', fun svc =>
    if ev.registersFor = some svc ∧ k'.frame.eax = eNONE then some s.1.schedulerCurr
    else (s.2 svc).filter k'.live)

/-- Control blocks are records, and a slot that is handed out has been handed out fewer than
255 times before. -/
structure Orderly (k k' : Kernel) : Prop where
  record : ∀ u, k.live u = true → k'.live u = true → (k'.thread u).record = (k.thread u).record
  process : ∀ p, k.liveProcess p = false → k'.liveProcess p = true → k.blockVersions p ≠ 255
  thread : ∀ u, k.live u = false → k'.live u = true →
    (k.blocks u.pid).process.threadInfo.versions u.tid.toNat ≠ 255

theorem Kernel.registry_surviving (o : Option ThreadUid) :
    k.registry.surviving o = o.filter k.live := by
  rw [Registry.surviving]
  congr 1
  funext u
  exact registry_thread_isSome

theorem Orderly.proper_spawn {pid ppid : Pid} (h : Orderly k k')
    (hvalid : k.registry.Valid (.spawn pid ppid))
    (hregistry : k'.registry = k.registry.apply (.spawn pid ppid)) :
    k.registry.Proper (.spawn pid ppid) := by
  refine ⟨hvalid, trivial, h.process pid ?_ ?_⟩
  · rw [← Kernel.registry_process_isSome, show k.registry.process pid = none from hvalid]
    rfl
  · rw [← Kernel.registry_process_isSome, hregistry, Registry.apply]
    simp

theorem Orderly.proper_create (h : Orderly k k') (hvalid : k.registry.Valid (.create u))
    (hregistry : k'.registry = k.registry.apply (.create u)) : k.registry.Proper (.create u) := by
  have hstays : ∀ v, k.live v = true → k'.live v = true := fun v hv => by
    rw [← Kernel.registry_thread_isSome, hregistry]
    simp only [Registry.apply]
    split
    · rfl
    · rw [Option.isSome_map, Kernel.registry_thread_isSome, hv]
  refine ⟨hvalid, Kernel.keeps_create hvalid hregistry fun v hv => h.record v hv (hstays v hv),
    h.thread u ?_ ?_⟩
  · rw [← Kernel.registry_thread_isSome, hvalid.2]
    rfl
  · rw [← Kernel.registry_thread_isSome, hregistry, Registry.apply]
    simp

/-- Does the event hand out slots? -/
def Event.handsOut (ev : Event) : Bool :=
  match ev.call with
  | some .spawn => true
  | _ => ev.creates

/-- The other events end processes and threads, and look up services. -/
theorem proper_of_mayDo {R : Registry} {op : RegistryOp} (hev : ev.handsOut = false)
    (hvalid : R.Valid op) (hmay : k.MayDo ev op) : R.Proper op ∧ ∀ v, op ≠ .create v := by
  have hcreates : ev.creates = false := by
    unfold Event.handsOut at hev
    split at hev
    · cases hev
    · exact hev
  cases op with
  | spawn pid parent =>
    rw [Event.handsOut, hmay.1] at hev
    cases hev
  | create uid => exact absurd hmay (by rw [Kernel.MayDo, hcreates]; exact Bool.false_ne_true)
  | _ => exact ⟨⟨hvalid, trivial, trivial⟩, fun _ => RegistryOp.noConfusion⟩

/-- Such events keep to the rules by themselves. -/
theorem orderly_of_handsOut (hk : k.Reserved) (hev : ev.handsOut = false)
    (h : k.step ev = some k') : Orderly k k' := by
  obtain ⟨-, ops, hruns⟩ := Kernel.step_registers hk h
  have hkeep : (∀ p, (k'.registry.process p).isSome → (k.registry.process p).isSome) ∧
      ∀ u, k'.registry.thread u = none ∨ k'.registry.thread u = k.registry.thread u := by
    refine Steps.invariant (I := fun R : Registry =>
      (∀ p, (R.process p).isSome → (k.registry.process p).isSome) ∧
      ∀ u, R.thread u = none ∨ R.thread u = k.registry.thread u) ?_ hruns
      ⟨fun _ => id, fun _ => Or.inr rfl⟩
    -- No operation of such an event makes a process or a thread; the rest only end some.
    rintro R op _ ⟨hprocess, hthread⟩ hstep ⟨hvalid, hmay⟩
    cases hstep
    obtain ⟨-, hcreate⟩ := proper_of_mayDo hev hvalid hmay
    cases op with
    | spawn pid parent =>
      rw [Event.handsOut, hmay.1] at hev
      cases hev
    | create uid => exact absurd rfl (hcreate uid)
    | exit uid =>
      refine ⟨hprocess, fun u => ?_⟩
      simp only [Registry.apply]
      split
      · exact Or.inl rfl
      · exact hthread u
    | kill pid =>
      refine ⟨fun p hp => ?_, fun u => ?_⟩
      · simp only [Registry.apply] at hp
        split at hp
        · cases hp
        · exact hprocess p hp
      · simp only [Registry.apply]
        split
        · exact Or.inl rfl
        · exact hthread u
    | register svc uid => exact ⟨hprocess, hthread⟩
    | mute line => exact ⟨hprocess, hthread⟩
  obtain ⟨hprocess, hthread⟩ := hkeep
  simp only [Kernel.registry_process_isSome] at hprocess
  refine ⟨fun u hu hu' => ?_, fun p hp hp' => ?_, fun u hu hu' => ?_⟩
  · rcases hthread u with hnone | hsame
    · rw [Kernel.registry_thread, if_pos hu'] at hnone
      cases hnone
    · rw [Kernel.registry_thread, Kernel.registry_thread, if_pos hu', if_pos hu] at hsame
      exact Option.some.inj hsame
  · rw [hprocess p hp'] at hp
    cases hp
  · rcases hthread u with hnone | hsame
    · rw [Kernel.registry_thread, if_pos hu'] at hnone
      cases hnone
    · rw [← Kernel.registry_thread_isSome, hsame, Kernel.registry_thread_isSome, hu] at hu'
      cases hu'

/-- A `svcown` looks the service up, and registers the caller if nobody owns it. -/
theorem syscallSvcown_registry {n : Word} (h : syscallSvcown n k = .ok () k') :
    (k'.frame.eax ≠ eNONE ∧
      (k'.registry = k.registry ∨ k'.registry = (k.lookedUp n.toNat).registry)) ∨
    k'.frame.eax = eNONE ∧ n.toNat < svcMax ∧ k.servicePort n.toNat = {} ∧
      (k.lookedUp n.toNat).registry.Valid (.register n.toNat k.schedulerCurr) ∧
      k'.registry = (k.lookedUp n.toNat).registry.apply (.register n.toNat k.schedulerCurr) := by
  rw [syscallSvcown, ite_eq_ok] at h
  rcases h with ⟨-, h⟩ | ⟨-, h⟩
  · obtain rfl := modify_eq_ok.mp h
    exact Or.inl ⟨(by decide : ePARAM ≠ eNONE), Or.inl rfl⟩
  · obtain ⟨port, t, hget, h⟩ := bind_eq_ok.mp h
    obtain ⟨hlt, rfl, rfl⟩ := serviceGet_eq hget
    have hcurr : (k.lookedUp n.toNat).schedulerCurr = k.schedulerCurr := by
      unfold Kernel.lookedUp
      split
      · rfl
      · rfl
    simp only [ite_eq_ok, get_bind_apply, bind_eq_ok, derefProcess_eq_ok, hcurr] at h
    rcases h with ⟨-, h⟩ | ⟨hfree, _, _, ⟨-, -, rfl⟩, ⟨-, h⟩ | ⟨-, _, t, hregister, h⟩⟩
    · obtain rfl := modify_eq_ok.mp h
      exact Or.inl ⟨(by decide : eNOTAVAIL ≠ eNONE), Or.inr rfl⟩
    · obtain rfl := modify_eq_ok.mp h
      exact Or.inl ⟨(by decide : ePRIV ≠ eNONE), Or.inr rfl⟩
    · obtain rfl := modify_eq_ok.mp h
      obtain ⟨-, -, hvalid, hregistry⟩ := serviceRegister_registry hregister
      exact Or.inr ⟨rfl, hlt, not_not.mp hfree, hvalid, hregistry⟩

/-- In a state that the kernel reaches, with the owners of its services. -/
structure Owners (k : Kernel) (owner : Nat → Option ThreadUid) : Prop where
  reserved : k.Reserved
  sound : k.registry.Sound
  owned : ∀ svc, k.registry.OwnedBy svc (owner svc)

theorem Booted.owners (h : Booted k) : Owners k fun _ => none := by
  obtain ⟨hreserved, hintact, hversioned, -, -, -, hservices⟩ := h.registry
  exact ⟨hreserved, ⟨hintact, hversioned⟩, fun svc => Or.inl (congrFun hservices svc)⟩

section Step

variable {owner : Nat → Option ThreadUid}

theorem Owners.lookedUp (h : Owners k owner) (n : Nat) :
    (k.lookedUp n).registry.Sound ∧ ∀ svc, (k.lookedUp n).registry.OwnedBy svc (owner svc) := by
  rcases k.lookedUp_registry n with hsame | ⟨hvalid, hmuted⟩
  · rw [hsame]
    exact ⟨h.sound, h.owned⟩
  · rw [hmuted]
    refine ⟨h.sound.apply ⟨hvalid, trivial, trivial⟩, fun svc => ?_⟩
    have howned := h.owned svc
    cases hsvc : owner svc <;> rw [hsvc] at howned <;> exact howned

/-- A call of `svcown` that is refused leaves the owners alone, and one that is not makes the
caller the owner. -/
theorem Owners.svcown {n : Word} (h : Owners k owner) (hcall : syscallSvcown n k = .ok () k') :
    k'.registry.Sound ∧ ∀ svc, k'.registry.OwnedBy svc
      (if svc = n.toNat ∧ k'.frame.eax = eNONE then some k.schedulerCurr
        else k'.registry.surviving (owner svc)) := by
  have hlook := h.lookedUp n.toNat
  rcases syscallSvcown_registry hcall with ⟨hfail, hregistry⟩ | ⟨hok, -, -, hvalid, hregistry⟩
  · have hkeep : k'.registry.Sound ∧ ∀ svc, k'.registry.OwnedBy svc (owner svc) := by
      rcases hregistry with hsame | hsame
      · rw [hsame]
        exact ⟨h.sound, h.owned⟩
      · rw [hsame]
        exact hlook
    refine ⟨hkeep.1, fun svc => ?_⟩
    rw [if_neg fun hs => hfail hs.2, (hkeep.2 svc).surviving_eq]
    exact hkeep.2 svc
  · have hop : (k.lookedUp n.toNat).registry.Proper (.register n.toNat k.schedulerCurr) :=
      ⟨hvalid, trivial, trivial⟩
    refine ⟨hregistry ▸ hlook.1.apply hop, fun svc => ?_⟩
    by_cases hsvc : svc = n.toNat
    · rw [if_pos ⟨hsvc, hok⟩, hregistry, hsvc]
      exact Registry.ownedBy_register hvalid
    · rw [if_neg fun hs => hsvc hs.1, hregistry]
      refine (hlook.2 svc).apply hlook.1 hop fun u hu => hsvc ?_
      cases hu
      rfl

/-- Any other event leaves each service to its owner, if that survives. -/
theorem Owners.other (h : Owners k owner) (horderly : Orderly k k')
    (hregisters : ev.registersFor = none) (hstep : k.step ev = some k') :
    k'.registry.Sound ∧ ∀ svc, k'.registry.OwnedBy svc (k'.registry.surviving (owner svc)) := by
  have hone : ∀ op, k.registry.Proper op → (∀ svc u, op ≠ .register svc u) →
      k'.registry = k.registry.apply op → k'.registry.Sound ∧
        ∀ svc, k'.registry.OwnedBy svc (k'.registry.surviving (owner svc)) := by
    intro op hop hregister hregistry
    rw [hregistry]
    exact ⟨h.sound.apply hop, fun svc => (h.owned svc).apply h.sound hop (hregister svc)⟩
  -- Without a spawn or a new thread the operations are proper by themselves.
  cases hev : ev.handsOut with
  | false =>
    obtain ⟨-, ops, hruns⟩ := Kernel.step_registers h.reserved hstep
    have hproper : Registry.Runs (fun R op => R.Proper op ∧ (∀ v, op ≠ .create v) ∧
        ∀ svc v, op ≠ .register svc v) k.registry ops k'.registry := by
      refine hruns.mono fun R op _ _ hmay => ⟨hmay.1, ?_⟩
      obtain ⟨hop, hcreate⟩ := proper_of_mayDo hev hmay.1 hmay.2
      refine ⟨hop, hcreate, fun svc v hregister => ?_⟩
      subst hregister
      obtain ⟨⟨n, hcall, -⟩, -⟩ := hmay.2
      rw [Event.registersFor, hcall] at hregisters
      cases hregisters
    refine ⟨?_, fun svc => (h.owned svc).run (hproper.mono fun _ _ _ _ hop => ?_) h.sound⟩
    · refine Steps.invariant (fun S op _ hS hstep hop => ?_) hproper h.sound
      cases hstep
      exact hS.apply hop.2.1
    · exact ⟨hop.1, hop.2.1, hop.2.2.1, hop.2.2.2 svc⟩
  | true =>
    -- A spawn or a new thread is one operation, proper because the step is orderly.
    cases hcreates : ev.creates with
    | true =>
      rcases Kernel.step_creates hcreates hstep with hsame | ⟨u, -, hvalid, hregistry⟩
      · rw [hsame]
        exact ⟨h.sound, fun svc => by rw [(h.owned svc).surviving_eq]; exact h.owned svc⟩
      · exact hone _ (horderly.proper_create hvalid hregistry) nofun hregistry
    | false =>
      have hcall : ev.call = some .spawn := by
        unfold Event.handsOut at hev
        split at hev
        · assumption
        · rw [hcreates] at hev
          cases hev
      obtain ⟨pid, -, -, hvalid, hregistry⟩ := Kernel.step_spawn hcall h.reserved hstep
      exact hone _ (horderly.proper_spawn hvalid hregistry) nofun hregistry

/-- The owners as the run records them are the owners in the registry, step by step. -/
theorem Owners.step {owner' : Nat → Option ThreadUid} (h : Owners k owner)
    (horderly : Orderly k k') (hown : ownStep (k, owner) ev = some (k', owner')) :
    Owners k' owner' := by
  obtain ⟨t, hstep, heq⟩ := Option.map_eq_some_iff.mp hown
  obtain ⟨rfl, rfl⟩ := Prod.mk.inj heq
  have hreserved := (Kernel.step_registers h.reserved hstep).reserved
  cases hregisters : ev.registersFor with
  | none =>
    obtain ⟨hsound, howned⟩ := h.other horderly hregisters hstep
    refine ⟨hreserved, hsound, fun svc => ?_⟩
    have hnot : ¬(none = some svc ∧ t.frame.eax = eNONE) := fun hs => by cases hs.1
    rw [if_neg hnot, ← Kernel.registry_surviving]
    exact howned svc
  | some m =>
    obtain ⟨n, hcall, rfl⟩ : ∃ n : Word, ev.call = some (.svcown n) ∧ n.toNat = m := by
      unfold Event.registersFor at hregisters
      split at hregisters
      · next n hcall => exact ⟨n, hcall, Option.some.inj hregisters⟩
      · cases hregisters
    obtain ⟨frame, input, hrun⟩ := step_of_call hcall hstep
    have hok := recover_of_noFault ((syscallSvcown_does n).noFault _) hrun
    have hentered : Owners { k with frame := frame } owner := ⟨h.reserved, h.sound, h.owned⟩
    obtain ⟨hsound, howned⟩ := hentered.svcown hok
    refine ⟨hreserved, hsound, fun svc => ?_⟩
    have hiff : (some n.toNat = some svc ∧ t.frame.eax = eNONE) ↔
        svc = n.toNat ∧ t.frame.eax = eNONE := by
      rw [Option.some.injEq, eq_comm]
    rw [← Kernel.registry_surviving, if_congr hiff rfl rfl]
    exact howned svc

theorem Owners.live (h : Owners k owner) (howner : owner svc = some u) : k.live u = true := by
  have howned := h.owned svc
  rw [howner] at howned
  rw [← Kernel.registry_thread_isSome]
  exact Registry.thread_isSome_of_port howned

theorem Owners.recorded (h : Owners k owner) (howner : owner svc = some u) :
    k.serviceIds svc = k.portOfUid u := by
  have howned := h.owned svc
  rw [howner, Registry.OwnedBy, Kernel.registry_port (h.live howner)] at howned
  exact (Option.some.inj howned).symm

/-- The recorded port of a live owner is not zero, and resolves. -/
theorem Owners.servicePort_of_owner (h : Owners k owner) (howner : owner svc = some u) :
    k.servicePort svc = k.portOfUid u ∧ k.servicePort svc ≠ {} := by
  have hlive := h.live howner
  have hport := Kernel.registry_port hlive
  have hversioned := h.sound.toVersioned.port_versioned hport
  have hnamed : k.portToUid (k.portOfUid u) 0 = u := by
    rw [← Kernel.registry_resolve]
    exact Registry.Runs.resolve_alive (.nil _) h.sound.toIntact hport hversioned rfl 0
  have hne : u ≠ 0 := by
    rintro rfl
    cases hlive
  have hservice : k.servicePort svc = k.portOfUid u := by
    rw [Kernel.servicePort, h.recorded howner, hnamed, if_pos hne]
  refine ⟨hservice, fun hzero => ?_⟩
  rw [← hservice, hzero] at hversioned
  cases hversioned

theorem Owners.servicePort_of_none (h : Owners k owner) (howner : owner svc = none) :
    k.servicePort svc = {} := by
  have howned := h.owned svc
  rw [howner] at howned
  rw [Kernel.servicePort_eq_zero]
  rcases howned with hzero | ⟨hversioned, hgone⟩
  · rw [show k.serviceIds svc = {} from hzero]
    rfl
  · rw [← Kernel.registry_resolve]
    exact hgone.resolve h.sound.toIntact hversioned 0

end Step

/-- In every state reached, `service_get` answers with the port of the thread that registered
last, if that thread is still alive, and with zero if not. And `svcown` succeeds only where
`service_get` answers with zero. -/
theorem service_follows_owner {owner : Nat → Option ThreadUid} (hboot : Booted k₀)
    (hrun : Steps ownStep (fun s _ s' => Orderly s.1 s'.1) (k₀, fun _ => none) evs (k, owner)) :
    (∀ svc, svc < svcMax → ∃ port t, serviceGet svc k = .ok port t ∧
      (port ≠ {} ↔ (owner svc).isSome) ∧
      ∀ u, owner svc = some u → k.live u = true ∧ port = k.portOfUid u) ∧
    ∀ (n : Word) ev k', ev.call = some (.svcown n) → k.step ev = some k' → k'.frame.eax = eNONE →
      (∃ t, serviceGet n.toNat k = .ok {} t) ∧ owner n.toNat = none := by
  have howners : Owners k owner := by
    refine hrun.invariant (I := fun s => Owners s.1 s.2) (fun s ev s' hs hstep horderly => ?_)
      hboot.owners
    exact hs.step horderly hstep
  refine ⟨fun svc hsvc => ⟨_, _, serviceGet_apply hsvc, ?_, fun u hu => ?_⟩,
    fun n ev k' hcall hstep hok => ?_⟩
  · cases howner : owner svc with
    | none => simp [howners.servicePort_of_none howner]
    | some u => exact iff_of_true (howners.servicePort_of_owner howner).2 rfl
  · exact ⟨howners.live hu, (howners.servicePort_of_owner hu).1⟩
  · obtain ⟨frame, input, hrun⟩ := step_of_call hcall hstep
    have hcalled := recover_of_noFault ((syscallSvcown_does n).noFault _) hrun
    rcases syscallSvcown_registry hcalled with ⟨hfail, -⟩ | ⟨-, hlt, hzero, -⟩
    · exact absurd hok hfail
    · have hfree : k.servicePort n.toNat = {} := hzero
      refine ⟨⟨_, hfree ▸ serviceGet_apply hlt⟩, ?_⟩
      cases howner : owner n.toNat with
      | none => rfl
      | some u => exact absurd hfree (howners.servicePort_of_owner howner).2

/-- The first process registers for service 5, and is found there until a page fault ends it. -/
theorem service_ends_with_owner : ∃ k₀ k k' owner owner' u, Booted k₀ ∧
    Steps ownStep (fun s _ s' => Orderly s.1 s'.1) (k₀, fun _ => none) [callEvent 17 5 0 0]
      (k, owner) ∧
    owner 5 = some u ∧ k.live u = true ∧ (∃ t, serviceGet 5 k = .ok (k.portOfUid u) t) ∧
    Steps ownStep (fun s _ s' => Orderly s.1 s'.1) (k₀, fun _ => none)
      [callEvent 17 5 0 0, .pagefault {}] (k', owner') ∧
    k'.live u = false ∧ ∃ t, serviceGet 5 k' = .ok {} t := by
  have hany : (bootPages (fun _ => 0) [0x2000, 0x3000]).any (fun k₀ =>
      (k₀.step (callEvent 17 5 0 0)).any fun k => k.frame.eax = eNONE &&
        (k.step (.pagefault {})).any fun k' => !k'.live k₀.schedulerCurr) = true := by
    decide +kernel
  obtain ⟨k₀, hboot, hany⟩ := (Option.any_eq_true _ _).mp hany
  obtain ⟨k, hstep, hany⟩ := (Option.any_eq_true _ _).mp hany
  rw [Bool.and_eq_true, decide_eq_true_eq] at hany
  obtain ⟨hok, hany⟩ := hany
  obtain ⟨k', hfault, hdead⟩ := (Option.any_eq_true _ _).mp hany
  rw [Bool.not_eq_true'] at hdead
  have hboot := booted_of_bootPages hboot
  have horderly := orderly_of_handsOut hboot.registry.reserved (by decide) hstep
  have horderly' := orderly_of_handsOut
    (Kernel.step_registers hboot.registry.reserved hstep).reserved (by decide) hfault
  have hown : ownStep (k₀, fun _ => none) (callEvent 17 5 0 0) = some (k, _) :=
    Option.map_eq_some_iff.mpr ⟨k, hstep, rfl⟩
  have hrun : Steps ownStep (fun s _ s' => Orderly s.1 s'.1) (k₀, fun _ => none)
      [callEvent 17 5 0 0] _ := .cons hown horderly (.nil _)
  have hrun' : Steps ownStep (fun s _ s' => Orderly s.1 s'.1) (k₀, fun _ => none)
      [callEvent 17 5 0 0, .pagefault {}] _ :=
    .cons hown horderly (.cons (Option.map_eq_some_iff.mpr ⟨k', hfault, rfl⟩) horderly' (.nil _))
  have howner : (if (callEvent 17 5 0 0).registersFor = some 5 ∧ k.frame.eax = eNONE then
      some k₀.schedulerCurr else none) = some k₀.schedulerCurr := if_pos ⟨rfl, hok⟩
  obtain ⟨port, t, hget, -, hport⟩ := (service_follows_owner hboot hrun).1 5 (by decide)
  obtain ⟨hlive, rfl⟩ := hport k₀.schedulerCurr howner
  obtain ⟨port', t', hget', hiff, -⟩ := (service_follows_owner hboot hrun').1 5 (by decide)
  refine ⟨k₀, k, k', _, _, k₀.schedulerCurr, hboot, hrun, howner, hlive, ⟨t, hget⟩, hrun', hdead,
    t', ?_⟩
  have hnone : port' = {} := by
    by_contra hne
    obtain ⟨u, hu⟩ := Option.isSome_iff_exists.mp (hiff.mp hne)
    rw [if_neg fun h => by cases h.1] at hu
    have hfilter : (some k₀.schedulerCurr).filter k'.live = some u :=
      (congrArg _ howner).symm.trans hu
    rw [Option.filter_some, hdead] at hfilter
    cases hfilter
  rw [hget', hnone]

end Horizon
