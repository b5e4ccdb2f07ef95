import Horizon.System.Boot
import Horizon.System.Exposed

/-!
# Horizon — exceptions (`arch/i586/sw/int/exception.c`)

The kernel is built with `_DEBUG`, so that `exception_info` follows the handler of every exception.
It prints what has happened, and panics if it does not know the exception or has seen it too often.
`Kernel.step` has the handlers of the exceptions that end a thread. A `Machine` has all exceptions,
and `exception_info`.
-/

namespace Horizon

open StateError

/-- `rep_last`, which is -1 at first, and `rep_count`. -/
structure Repeats where
  last : Option (BitVec 8) := none
  count : Nat := 0

/-- `exception_info` without its output; `none` is a panic. Only two exceptions have a label in the
`switch`: what names the others stands in front of the first label, and is never reached. -/
def exceptionInfo (isr : BitVec 8) (r : Repeats) : Option Repeats :=
  if isr ≠ 2 ∧ isr ≠ 14 then none
  else if r.last = some isr then
    if r.count + 1 > 1 then none else some { r with count := r.count + 1 }
  else some { last := some isr }

/-- What the processor reports: an event of the kernel, or an exception by its number. -/
inductive Trap where
  | event (e : Event)
  | exception (isr : BitVec 8) (frame : IntFrame)

/-- The event of the kernel that a trap is. The first four exceptions are all the same to it. -/
def Trap.toEvent : Trap → Option Event
  | .event e => some e
  | .exception isr frame =>
      match isr.toNat with
      | 0 | 4 | 5 | 13 => some (.userfault frame)
      | 14 => some (.pagefault frame)
      | _ => none

/-- `exception_callback` for the exceptions that are no events: nothing is done about traps of the
debugger, unknown instructions, the floating-point units and alignment, and the others are fatal. -/
def exceptionCallback (isr : BitVec 8) (frame : IntFrame) (k : Kernel) : Option Kernel :=
  match isr.toNat with
  | 1 | 3 | 6 | 7 | 16 | 17 | 19 => some { k with frame }
  | _ => none

/-- The exception whose handler comes to its end, after a fault inside the kernel that one. -/
def Event.isr (k : Kernel) (e : Event) : Option (BitVec 8) :=
  match Exposed.handle e k, e with
  | .error .pageFault _, _ | _, .pagefault _ => some 14
  -- One of four, which are all the same to `exception_info`.
  | _, .userfault _ => some 13
  | _, _ => none

/-- The kernel, the variables of `exception_info`, and the exceptions so far. -/
structure Machine where
  kernel : Kernel
  repeats : Repeats := {}
  raised : List (BitVec 8) := []

/-- `exception_info` after the handler of an exception. -/
def Machine.inform (m : Machine) (isr : BitVec 8) (kernel : Kernel) : Option Machine :=
  (exceptionInfo isr m.repeats).map fun repeats => { kernel, repeats, raised := isr :: m.raised }

/-- One trap: its handler, and `exception_info` behind it if it is an exception. -/
def Machine.step (m : Machine) (t : Trap) : Option Machine :=
  match t.toEvent, t with
  | some e, _ => (Exposed.step m.kernel e).bind fun kernel =>
      match e.isr m.kernel with
      | none => some { m with kernel }
      | some isr => m.inform isr kernel
  | none, .exception isr frame => (exceptionCallback isr frame m.kernel).bind (m.inform isr)
  | none, .event _ => none

/-- The variables of `exception_info` are the kernel's memory, too. -/
def Trap.Spares (k : Kernel) (t : Trap) : Prop := ∀ e, t.toEvent = some e → e.Spares k

variable {k₀ : Kernel} {m m' : Machine} {e : Event} {t : Trap} {ts : List Trap}

theorem Event.isr_eq_some {k : Kernel} {isr : BitVec 8} (h : e.isr k = some isr) :
    isr = 13 ∨ isr = 14 := by
  unfold Event.isr at h
  split at h <;> cases h <;> decide

/-- What `exception_callback` passes over, `exception_info` does not know. -/
theorem Machine.inform_of_callback {isr : BitVec 8} {frame : IntFrame} {k k' : Kernel}
    (h : exceptionCallback isr frame k = some k') : m.inform isr k' = none := by
  have hisr : isr ≠ 2 ∧ isr ≠ 14 := by
    constructor <;> rintro rfl <;> cases h
  rw [Machine.inform, exceptionInfo, if_pos hisr, Option.map_none]

/-- Whatever exception is survived is a page fault. -/
theorem Machine.step_cases (h : m.step t = some m') : ∃ e, t.toEvent = some e ∧
    Exposed.step m.kernel e = some m'.kernel ∧
    (m'.repeats = m.repeats ∧ m'.raised = m.raised ∨
      exceptionInfo 14 m.repeats = some m'.repeats ∧ m'.raised = 14 :: m.raised) := by
  unfold Machine.step at h
  split at h
  · next e ht =>
    obtain ⟨k, hk, h⟩ := Option.bind_eq_some_iff.mp h
    split at h
    · cases h
      exact ⟨e, ht, hk, .inl ⟨rfl, rfl⟩⟩
    · next isr hisr =>
      obtain ⟨r, hinfo, rfl⟩ := Option.map_eq_some_iff.mp h
      obtain rfl | rfl := Event.isr_eq_some hisr
      · cases hinfo
      · exact ⟨e, ht, hk, .inr ⟨hinfo, rfl⟩⟩
  · obtain ⟨k, hk, h⟩ := Option.bind_eq_some_iff.mp h
    rw [Machine.inform_of_callback hk] at h
    cases h
  · cases h

/-- A machine survives at most two exceptions, and they are page faults. What it does until then is
what the kernel does. -/
theorem machine_survives_two_faults
    (h : Steps Machine.step (fun m t _ => t.Spares m.kernel) { kernel := k₀ } ts m) :
    (∃ es, ts.map Trap.toEvent = es.map some ∧
      Exposed.Run (fun _ _ _ => True) k₀ es m.kernel) ∧
    (m.raised = [] ∨ m.raised = [14] ∨ m.raised = [14, 14]) := by
  have hkeep := Steps.invariant_history (I := fun ts m =>
    (∃ es, ts.map Trap.toEvent = es.map some ∧
      Exposed.Run (fun _ _ _ => True) k₀ es m.kernel) ∧
    (m.repeats = {} ∧ m.raised = [] ∨ m.repeats = ⟨some 14, 0⟩ ∧ m.raised = [14] ∨
      m.repeats = ⟨some 14, 1⟩ ∧ m.raised = [14, 14])) ?_ h ⟨⟨[], rfl, .nil _⟩, .inl ⟨rfl, rfl⟩⟩
  · exact ⟨hkeep.1, hkeep.2.imp And.right (Or.imp And.right And.right)⟩
  · rintro ts m t m' ⟨⟨es, hes, hrun⟩, hm⟩ h hspares
    obtain ⟨e, ht, hk, hcases⟩ := Machine.step_cases h
    refine ⟨⟨es ++ [e], ?_, hrun.append (.cons hk ⟨hspares e ht, trivial⟩ (.nil _))⟩, ?_⟩
    · rw [List.map_append, List.map_append, hes, List.map_singleton, List.map_singleton, ht]
    · obtain ⟨hr, hraised⟩ | ⟨hinfo, hraised⟩ := hcases
      · rwa [hr, hraised]
      · rw [hraised]
        obtain ⟨hr, hm⟩ | ⟨hr, hm⟩ | ⟨hr, hm⟩ := hm <;> rw [hr] at hinfo <;> rw [hm]
        · exact .inr (.inl ⟨(Option.some.inj hinfo).symm, rfl⟩)
        · exact .inr (.inr ⟨(Option.some.inj hinfo).symm, rfl⟩)
        · cases hinfo

/-- Two processes end by a page fault, and the third one goes on. -/
theorem two_faults_survived : ∃ k₀, ∃ m : Machine, Booted k₀ ∧ m.raised = [14, 14] ∧
    ∃ es, [Trap.exception 14 {}, .exception 14 {}].map Trap.toEvent = es.map some ∧
      Exposed.Run (fun _ _ _ => True) k₀ es m.kernel := by
  have hany : (runPages (fun _ => 0) [0x2000, 0x3000, 0x4000] []).any (fun kernel =>
      (runEvents (checked Machine.step fun _ t _ => t.toEvent.any Event.harmless) { kernel }
        [.exception 14 {}, .exception 14 {}]).any fun m => m.raised = [14, 14]) = true := by
    decide +kernel
  obtain ⟨k₀, _, hboot, hrun, hany⟩ := exists_run_of_any hany
  cases hrun
  obtain ⟨m, hrun, hraised⟩ := exists_steps_of_any (P := fun m t _ => t.Spares m.kernel)
    (fun m t _ ht e he => Event.spares_of_harmless (by rwa [he] at ht)) hany
  exact ⟨k₀, m, hboot, of_decide_eq_true hraised, (machine_survives_two_faults hrun).1⟩

end Horizon
