import Horizon.System.Exposed
import Horizon.System.RegistryTrace

/-!
# Horizon — the timer keeps running

The timer tick sits in the table of interrupt callbacks that services are also registered in,
under service number 0, where nobody has ever registered. `service_get` tears down the line of
a service whose owner does not answer, and so the line of the timer, for anyone who asks. As
long as nobody does, nothing else the kernel does masks the line or changes its callback.

A program can also mask the line itself, since `sysio` writes to any port. `portStep` is an event
with the write to the mask registers of the interrupt controllers that it may consist of; the
other registers of the controllers and of the timer are not modelled.
-/

namespace Horizon

open StateError

variable {k k' k₀ : Kernel} {ev : Event} {evs : List Event}

/-- `PIT_IRQ`. -/
def pitIrq : Nat := 0

/-- Does the event ask for the service number of the timer? -/
def Event.asksForTimer (ev : Event) : Bool :=
  match ev.call with
  | some (.svcown svc) => svc.toNat = pitIrq
  | some (.svcid svc) => svc.toNat = pitIrq
  | _ => false

/-! ## Writes to the interrupt controllers -/

/-- Is it a port of the interrupt controllers (0x20, 0x21, 0xA0, 0xA1) or of the timer (0x40 to
0x43)? -/
def timerPort (port : Word) : Bool :=
  port.toNat / 2 = 0x10 ∨ port.toNat / 2 = 0x50 ∨ port.toNat / 4 = 0x10

/-- A byte written to a port. A bit that is set in a mask register masks its line. -/
def Kernel.outb (k : Kernel) (port data : Word) : Kernel :=
  match port.toNat with
  | 0x21 => { k with
      irqEnabled := fun line => if line < 8 then !data.getLsbD line else k.irqEnabled line }
  | 0xA1 => { k with
      irqEnabled := fun line =>
        if 8 ≤ line ∧ line < 16 then !data.getLsbD (line - 8) else k.irqEnabled line }
  | _ => k

/-- The two output operations of `arch_sysio`. A word goes to two consecutive ports. -/
def Kernel.writePort (k : Kernel) (call : Option Syscall) : Kernel :=
  match call with
  | some (.sysio action arg data) =>
      match action.toNat with
      | 2 => if arg.toNat > 0xFFFF ∨ data.toNat > 0xFF then k else k.outb arg data
      | 3 =>
          if arg.toNat > 0xFFFF ∨ data.toNat > 0xFFFF then k
          else (k.outb arg (data &&& 0xFF)).outb (arg + 1) (data >>> 8)
      | _ => k
  | _ => k

/-- Does the event write to a port of the interrupt controllers or of the timer? -/
def Event.writesTimer (ev : Event) : Bool :=
  match ev.call with
  | some (.sysio action arg _) =>
      action.toNat = 2 ∧ timerPort arg ∨ action.toNat = 3 ∧ (timerPort arg ∨ timerPort (arg + 1))
  | _ => false

/-- One event, with the ports that it writes to. -/
def portStep (k : Kernel) (ev : Event) : Option Kernel :=
  (Exposed.step k ev).map fun k' => k'.writePort ev.call

theorem Kernel.outb_eq {port data : Word} (h : timerPort port = false) : k.outb port data = k := by
  simp only [timerPort, decide_eq_false_iff_not, not_or] at h
  unfold Kernel.outb
  split
  · next hport => exact absurd (by rw [hport]) h.1
  · next hport => exact absurd (by rw [hport]) h.2.1
  · rfl

theorem Kernel.writePort_eq (h : ev.writesTimer = false) : k.writePort ev.call = k := by
  unfold Event.writesTimer at h
  unfold Kernel.writePort
  split
  · next action arg data hcall =>
    simp only [hcall, decide_eq_false_iff_not, not_or, not_and, Bool.not_eq_true] at h
    split
    · next haction => rw [Kernel.outb_eq (h.1 haction), ite_self]
    · next haction =>
      rw [Kernel.outb_eq (h.2 haction).1, Kernel.outb_eq (h.2 haction).2, ite_self]
    · rfl
  · rfl

/-! ## The timer -/

/-- The timer's line, and the lines whose owner is alive. -/
def Kernel.InUse (k : Kernel) (line : Nat) : Prop :=
  line = pitIrq ∨ k.portToUid (k.serviceIds line) 0 ≠ 0

def Kernel.Ticking (k : Kernel) : Prop :=
  k.irqHandle pitIrq = .timerTick ∧ k.irqEnabled pitIrq = true

/-- Operations other than on the timer's line leave the line alone. -/
theorem Registry.apply_line {R : Registry} {op : RegistryOp} {line : Nat}
    (hregister : ∀ uid, op ≠ .register line uid) (hmute : op ≠ .mute line) :
    (R.apply op).handle line = R.handle line ∧ (R.apply op).enabled line = R.enabled line := by
  cases op with
  | register svc uid =>
    have hne : line ≠ svc := fun h => hregister uid (by rw [h])
    simp [Registry.apply, hne]
  | mute n =>
    have hne : line ≠ n := fun h => hmute (by rw [h])
    simp [Registry.apply, hne]
  | _ => exact ⟨rfl, rfl⟩

theorem Kernel.Ticking.step (hk : k.Ticking) (hres : k.Reserved) (hask : ev.asksForTimer = false)
    (h : k.step ev = some k') : k'.Ticking := by
  obtain ⟨-, ops, hruns⟩ := Kernel.step_registers hres h
  refine Steps.invariant (I := fun R : Registry =>
    R.handle pitIrq = .timerTick ∧ R.enabled pitIrq = true) ?_ hruns hk
  rintro R op _ hR hstep ⟨-, hmay⟩
  cases hstep
  have hline : (R.apply op).handle pitIrq = R.handle pitIrq ∧
      (R.apply op).enabled pitIrq = R.enabled pitIrq := by
    refine Registry.apply_line (fun uid hop => ?_) fun hop => ?_
    · subst hop
      obtain ⟨⟨n, hcall, hn⟩, -⟩ := hmay
      simp [Event.asksForTimer, hcall, ← hn] at hask
    · subst hop
      rcases hmay with ⟨svc, hcall | hcall, hsvc⟩ | ⟨frame, irq, -, -, hhandle⟩
      · simp [Event.asksForTimer, hcall, ← hsvc] at hask
      · simp [Event.asksForTimer, hcall, ← hsvc] at hask
      · -- An interrupt looks up a service only on lines that services are registered for.
        rw [hk.1] at hhandle
        cases hhandle
  rw [hline.1, hline.2]
  exact hR

/-- A lookup that is not of the timer's number spares every line in use. -/
theorem Kernel.lookedUp_inUse {svc line : Nat} (hsvc : svc ≠ pitIrq) (hline : k.InUse line) :
    (k.lookedUp svc).irqHandle line = k.irqHandle line ∧
      (k.lookedUp svc).irqEnabled line = k.irqEnabled line := by
  unfold lookedUp
  split
  · next h =>
    have hne : line ≠ svc := by
      rintro rfl
      rcases hline with htimer | howner
      · exact hsvc htimer
      · exact howner h.1
    exact ⟨Function.update_of_ne hne _ _, Function.update_of_ne hne _ _⟩
  · exact ⟨rfl, rfl⟩

theorem syscallSvcid_lookedUp {svc : Word} (h : syscallSvcid svc k = .ok () k') :
    (k'.irqHandle = k.irqHandle ∧ k'.irqEnabled = k.irqEnabled) ∨
      k'.irqHandle = (k.lookedUp svc.toNat).irqHandle ∧
        k'.irqEnabled = (k.lookedUp svc.toNat).irqEnabled := by
  rw [syscallSvcid, ite_eq_ok] at h
  rcases h with ⟨-, h⟩ | ⟨-, h⟩
  · obtain rfl := modify_eq_ok.mp h
    exact Or.inl ⟨rfl, rfl⟩
  · obtain ⟨port, t, hget, h⟩ := bind_eq_ok.mp h
    obtain ⟨-, -, rfl⟩ := serviceGet_eq hget
    obtain rfl := modify_eq_ok.mp h
    exact Or.inr ⟨rfl, rfl⟩

/-- A `svcown` that is refused has looked the service up, or not even that. -/
theorem syscallSvcown_lookedUp {svc : Word} (h : syscallSvcown svc k = .ok () k')
    (hrefused : k'.frame.eax ≠ eNONE) :
    (k'.irqHandle = k.irqHandle ∧ k'.irqEnabled = k.irqEnabled) ∨
      k'.irqHandle = (k.lookedUp svc.toNat).irqHandle ∧
        k'.irqEnabled = (k.lookedUp svc.toNat).irqEnabled := by
  rw [syscallSvcown, ite_eq_ok] at h
  rcases h with ⟨-, h⟩ | ⟨-, h⟩
  · obtain rfl := modify_eq_ok.mp h
    exact Or.inl ⟨rfl, rfl⟩
  · obtain ⟨port, t, hget, h⟩ := bind_eq_ok.mp h
    obtain ⟨-, -, rfl⟩ := serviceGet_eq hget
    simp only [ite_eq_ok, get_bind_apply, bind_eq_ok, derefProcess_eq_ok] at h
    rcases h with ⟨-, h⟩ | ⟨-, _, _, ⟨-, -, rfl⟩, ⟨-, h⟩ | ⟨-, _, _, -, h⟩⟩
    · obtain rfl := modify_eq_ok.mp h
      exact Or.inr ⟨rfl, rfl⟩
    · obtain rfl := modify_eq_ok.mp h
      exact Or.inr ⟨rfl, rfl⟩
    · obtain rfl := modify_eq_ok.mp h
      exact absurd rfl hrefused

/-- The event leaves the timer's hardware, its callback and its service number alone. -/
structure Event.SparesTimer (k : Kernel) (ev : Event) : Prop where
  memory : ev.Spares k
  asks : ev.asksForTimer = false
  writes : ev.writesTimer = false

theorem portStep_eq (h : ev.SparesTimer k) : portStep k ev = k.step ev := by
  have hport : (fun k' : Kernel => k'.writePort ev.call) = id :=
    funext fun _ => Kernel.writePort_eq h.writes
  rw [portStep, hport, Option.map_id_fun, id, Exposed.step_eq h.memory]

/-- As long as nobody asks for the timer's service number, writes to its ports or over its
callback, the timer is ticking, and neither `svcid` nor a refused `svcown` touches a line that is
in use. -/
theorem timer_keeps_ticking (hboot : Booted k₀)
    (hrun : Steps portStep (fun k ev _ => ev.SparesTimer k) k₀ evs k) :
    k.Ticking ∧ ∀ (svc : Word) (k' : Kernel), svc.toNat ≠ pitIrq →
      (syscallSvcid svc k = .ok () k' ∨
        syscallSvcown svc k = .ok () k' ∧ k'.frame.eax ≠ eNONE) →
      ∀ line, k.InUse line →
        k'.irqHandle line = k.irqHandle line ∧ k'.irqEnabled line = k.irqEnabled line := by
  have hkeep : k.Ticking ∧ k.Reserved := by
    refine hrun.invariant (I := fun t => t.Ticking ∧ t.Reserved) (fun s ev s' hs hport hspares => ?_)
      ⟨hboot.timer, hboot.registry.reserved⟩
    have hstep := (portStep_eq hspares).symm.trans hport
    exact ⟨hs.1.step hs.2 hspares.asks hstep, (Kernel.step_registers hs.2 hstep).reserved⟩
  refine ⟨hkeep.1, fun svc k' hsvc hcall line hline => ?_⟩
  have hlook : (k'.irqHandle = k.irqHandle ∧ k'.irqEnabled = k.irqEnabled) ∨
      k'.irqHandle = (k.lookedUp svc.toNat).irqHandle ∧
        k'.irqEnabled = (k.lookedUp svc.toNat).irqEnabled := by
    rcases hcall with hid | ⟨hown, hrefused⟩
    · exact syscallSvcid_lookedUp hid
    · exact syscallSvcown_lookedUp hown hrefused
  rcases hlook with ⟨hhandle, henabled⟩ | ⟨hhandle, henabled⟩
  · rw [hhandle, henabled]
    exact ⟨rfl, rfl⟩
  · rw [hhandle, henabled]
    exact Kernel.lookedUp_inUse hsvc hline

/-- The first process asks for the owner of line 1 and writes to port 0x60, and the timer goes
on. -/
theorem timer_survives_svcid : ∃ k₀ k, Booted k₀ ∧
    Steps portStep (fun k ev _ => ev.SparesTimer k) k₀
      [callEvent 18 1 0 0, callEvent 19 2 0x60 0xFF] k ∧ k.Ticking := by
  have hany : ((bootPages (fun _ => 0) [0x2000]).bind fun k => runEvents (checked portStep
      fun _ ev _ => ev.harmless && !ev.asksForTimer && !ev.writesTimer) k
        [callEvent 18 1 0 0, callEvent 19 2 0x60 0xFF]).any (fun _ => true) = true := by
    decide +kernel
  rw [Option.any_bind, Option.any_eq_true] at hany
  obtain ⟨k₀, hboot, hrun⟩ := hany
  obtain ⟨k, hsteps, -⟩ := exists_steps_of_any (P := fun k ev _ => Event.SparesTimer k ev)
    (fun k ev _ h => by
      simp only [Bool.and_eq_true, Bool.not_eq_true'] at h
      exact ⟨Event.spares_of_harmless h.1.1, h.1.2, h.2⟩) hrun
  have hbooted := booted_of_bootPages hboot
  exact ⟨k₀, k, hbooted, hsteps, (timer_keeps_ticking hbooted hsteps).1⟩

/-- The first process asks for the owner of line 0, and the timer stops. -/
theorem svcid_stops_timer : ∃ k₀ k, Booted k₀ ∧
    runEvents Kernel.step k₀ [callEvent 18 0 0 0] = some k ∧
    k.irqHandle pitIrq = .none ∧ k.irqEnabled pitIrq = false := by
  have hany : (runPages (fun _ => 0) [0x2000] [callEvent 18 0 0 0]).any (fun k =>
      k.irqHandle pitIrq = .none ∧ k.irqEnabled pitIrq = false) = true := by decide +kernel
  obtain ⟨k₀, k, hboot, hrun, hstopped⟩ := exists_run_of_any hany
  exact ⟨k₀, k, hboot, hrun, of_decide_eq_true hstopped⟩

end Horizon
