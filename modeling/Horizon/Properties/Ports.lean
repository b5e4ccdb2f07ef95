import Horizon.System.Boot

/-!
# Horizon — resolving a port and matching a port

`port_to_uid` decodes a port to the thread it names, `port_compare` decides whether a port matches
that of a thread. The first is used to find the target of a message, the second to recognise the
sender one waits for, one's own port, or the thread an offer is for.

They agree but for local ports: which thread a TID names depends on the process that uses it, and
`port_compare` is not told which one that is.
-/

namespace Horizon

open StateError

variable {k : Kernel} {p : Pid} {u : ThreadUid} {port : IpcPort}

namespace IpcPort

/-- A local TID: neither a process nor a version is given. -/
def isLocal (port : IpcPort) : Bool := port.unversioned ∧ port.pid = 0

/-- The forms that `port.h` lists: an exact receiver, a local thread, a process, or the kernel. -/
def wellFormed (port : IpcPort) : Bool :=
  port.unversioned = false ∨ port.isLocal ∨ port.tid = 0 ∨ port = .kernel

end IpcPort

/-- The control blocks of a live thread say which thread it is. -/
structure Kernel.Intact (k : Kernel) (u : ThreadUid) : Prop where
  live : k.live u = true
  pid : (k.blocks u.pid).process.pid = u.pid
  tid : (k.thread u).tid = u.tid
  versioned : (k.portOfUid u).unversioned = false

theorem two_le_of_live (h : k.live u = true) : 2 ≤ u.pid.toNat := by
  have hproc := Kernel.liveProcess_of_live h
  rw [Kernel.liveProcess, Bool.and_eq_true, decide_eq_true_eq] at hproc
  exact hproc.1

theorem Kernel.Intact.port_eq (h : k.Intact u) : k.portOfUid u =
      { pid := u.pid, pvn := (k.blocks u.pid).process.version, tid := u.tid
        tvn := (k.thread u).version } := by
  rw [Kernel.portOfUid, portOf, h.pid, h.tid]

theorem unversioned_special (h : port = .any ∨ port = .kernel) : port.unversioned = true := by
  obtain rfl | rfl := h <;> rfl

/-- A versioned port names a thread exactly if it is its port. -/
theorem portToUid_versioned (h : k.Intact u) (hport : port.unversioned = false) :
    k.portToUid port p = u ↔ port = k.portOfUid u := by
  have hspecial : ¬(port = .any ∨ port = .kernel) := fun hs => by
    rw [unversioned_special hs] at hport
    cases hport
  have hne : u ≠ 0 := by
    rintro rfl
    exact absurd (two_le_of_live h.live) (by decide)
  rw [Kernel.portToUid, if_neg hspecial, hport, if_neg Bool.false_ne_true, Kernel.threadGet_eq,
    h.port_eq]
  obtain ⟨pid, pvn, tid, tvn⟩ := port
  constructor
  · intro hresolve
    by_cases hlive : k.live { pid, tid } = true
    · rw [if_pos hlive] at hresolve
      dsimp only at hresolve
      split at hresolve
      · exact absurd hresolve.symm hne
      · next hversions =>
        subst hresolve
        rw [not_or, not_not, not_not] at hversions
        rw [hversions.1, hversions.2]
    · rw [if_neg hlive] at hresolve
      exact absurd hresolve.symm hne
  · intro heq
    injection heq with hpid hpvn htid htvn
    subst hpid hpvn htid htvn
    have hlive : k.live { pid := u.pid, tid := u.tid } = true := h.live
    rw [if_pos hlive]
    exact if_neg fun hversions => hversions.elim (fun hv => hv rfl) fun hv => hv rfl

theorem portCompare_versioned (h : k.Intact u) (hport : port.unversioned = false) :
    portCompare port (k.portOfUid u) = true ↔ port = k.portOfUid u := by
  have hspecial : ¬(port = .any ∨ k.portOfUid u = .any) := by
    rintro (rfl | hany)
    · cases hport
    · have hversioned := h.versioned
      rw [hany] at hversioned
      cases hversioned
  rw [portCompare, if_neg hspecial, hport, h.versioned]
  simp

theorem portCompare_unversioned (h : k.Intact u) (hport : port.unversioned = true)
    (hany : port ≠ .any) :
    portCompare port (k.portOfUid u) = true ↔ u = { pid := port.pid, tid := port.tid } := by
  have hspecial : ¬(port = .any ∨ k.portOfUid u = .any) := by
    rintro (heq | heq)
    · exact hany heq
    · have hversioned := h.versioned
      rw [heq] at hversioned
      cases hversioned
  rw [portCompare, if_neg hspecial, hport, if_pos (Or.inl rfl), h.port_eq, decide_eq_true_eq]
  obtain ⟨pid, tid⟩ := u
  simp [eq_comm]

/-- The two readings of a port agree for all threads, except that a local port is never
recognised as that of the thread it names. -/
theorem compare_agrees_with_resolve (h : k.Intact u) (hform : port.wellFormed = true)
    (hany : port ≠ .any) :
    (portCompare port (k.portOfUid u) = true ↔ k.portToUid port p = u) ↔
      ¬(port.isLocal = true ∧ u = { pid := p, tid := port.tid }) := by
  have hu := two_le_of_live h.live
  cases hport : port.unversioned with
  | false =>
    have hlocal : port.isLocal = false := by simp [IpcPort.isLocal, hport]
    rw [portCompare_versioned h hport, portToUid_versioned h hport, hlocal]
    simp
  | true =>
    rw [portCompare_unversioned h hport hany]
    by_cases hkernel : port = .kernel
    · subst hkernel
      have hlocal : IpcPort.isLocal .kernel = false := by decide
      have hresolve : k.portToUid .kernel p = { pid := 1, tid := 1 } := rfl
      rw [hresolve, hlocal]
      exact iff_of_true eq_comm fun hlocal => Bool.false_ne_true hlocal.1
    · have hspecial : ¬(port = .any ∨ port = .kernel) := not_or.mpr ⟨hany, hkernel⟩
      rw [Kernel.portToUid, if_neg hspecial, hport, if_pos rfl]
      by_cases hpid : port.pid = 0
      · -- A local port: `port_compare` looks for a process 0.
        have hne : u ≠ { pid := port.pid, tid := port.tid } := by
          rintro rfl
          have hzero : (0 : Pid).toNat = 0 := rfl
          rw [hpid, hzero] at hu
          omega
        have hlocal : port.isLocal = true := decide_eq_true ⟨hport, hpid⟩
        rw [if_pos hpid, hlocal]
        simp [hne, eq_comm]
      · have hlocal : port.isLocal = false := decide_eq_false fun hlocal => hpid hlocal.2
        have htid : port.tid = 0 := by
          simpa [IpcPort.wellFormed, hport, hlocal, hkernel] using hform
        rw [if_neg hpid, hlocal, htid]
        simp [eq_comm]

/-- The main thread of the first process, under its generic port. -/
theorem generic_port_matches_main_thread : ∃ k, Booted k ∧
    portCompare { pid := 2 } (k.portOfUid { pid := 2, tid := 0 }) = true := by
  have hany : (runPages (fun _ => 0) [0x2000] []).any (fun k =>
      k.live { pid := 2, tid := 0 } ∧ (k.blocks 2).process.pid = 2 ∧
      (k.thread { pid := 2, tid := 0 }).tid = 0 ∧
      (k.portOfUid { pid := 2, tid := 0 }).unversioned = false) = true := by decide +kernel
  obtain ⟨k, _, hboot, hrun, hintact⟩ := exists_run_of_any hany
  cases hrun
  obtain ⟨hlive, hpid, htid, hversioned⟩ := of_decide_eq_true hintact
  have hintact' : k.Intact { pid := 2, tid := 0 } := ⟨hlive, hpid, htid, hversioned⟩
  have hform : IpcPort.wellFormed { pid := 2 } = true := by decide
  have hagree := compare_agrees_with_resolve (p := 2) hintact' hform (by decide)
  exact ⟨k, hboot, (hagree.mpr (by decide)).mpr rfl⟩

/-- The second thread of the first process, under its local port. -/
theorem local_port_names_but_does_not_match : ∃ k₀ k, Booted k₀ ∧
    runEvents Kernel.step k₀ [callEvent 2 0x1000 0x2000 0] = some k ∧
    k.live { pid := 2, tid := 1 } = true ∧
    k.portToUid { tid := 1 } 2 = { pid := 2, tid := 1 } ∧
    portCompare { tid := 1 } (k.portOfUid { pid := 2, tid := 1 }) = false := by
  have hany : (runPages (fun _ => 0) [0x2000] [callEvent 2 0x1000 0x2000 0]).any (fun k =>
      k.live { pid := 2, tid := 1 } ∧ k.portToUid { tid := 1 } 2 = { pid := 2, tid := 1 } ∧
      portCompare { tid := 1 } (k.portOfUid { pid := 2, tid := 1 }) = false) = true := by
    decide +kernel
  obtain ⟨k₀, k, hboot, hrun, hport⟩ := exists_run_of_any hany
  exact ⟨k₀, k, hboot, hrun, of_decide_eq_true hport⟩

end Horizon
