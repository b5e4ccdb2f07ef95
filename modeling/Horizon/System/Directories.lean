import Horizon.System.Simulation

/-!
# Horizon — the directory of a process

The functions of `virtual.c` look up the directory of a process first. With `Kernel.dirOf` for it,
`virtual_is_mapped` is a walk over the page tables (`Vm.rangeMapped`).
-/

namespace Horizon

open StateError

variable {k t : Kernel} {addr : Word}

/-- The directory of a process; PID 0 is the kernel. -/
def Kernel.dirOf (k : Kernel) (pid : Pid) : Frame :=
  if pid = 0 then k.vm.kernelDir else (k.blocks pid).process.addrSpace

theorem virtualIsMapped_rangeMapped {pid : Pid} {size : Word} {r : Int}
    (h : virtualIsMapped pid addr size k = .ok r t) :
    k = t ∧ k.vm.rangeMapped (k.dirOf pid) addr size = some r := by
  simp only [virtualIsMapped, getDir, bind_eq_ok, get_bind_apply, dassert_eq_ok, orThrow_eq_ok,
    ite_eq_ok, pure_eq_ok, dassertSome, Kernel.processGet_eq_some] at h
  obtain ⟨_, _, ⟨-, rfl⟩, _, _, hdir, hmapped, rfl⟩ := h
  rcases hdir with ⟨hzero, rfl, rfl⟩ | ⟨hne, _, _, ⟨⟨-, rfl⟩, rfl⟩, rfl, rfl⟩
  · exact ⟨rfl, by rw [Kernel.dirOf, if_pos hzero]; exact hmapped⟩
  · exact ⟨rfl, by rw [Kernel.dirOf, if_neg hne]; exact hmapped⟩

/-- The flags of the mappings of a process. -/
def dirFlags (pid : Pid) : PagingFlags := { write := true, user := decide (pid ≠ 0) }

theorem getDir_eq {pid : Pid} (hpid : pid = 0 ∨ k.liveProcess pid = true) :
    getDir pid k = .ok (k.dirOf pid, dirFlags pid) k := by
  rcases hpid with rfl | hlive
  · rfl
  · have hne : pid ≠ 0 := by
      rintro rfl
      cases hlive
    rw [getDir, get_bind_apply, if_neg hne, Kernel.processGet_eq, if_pos hlive, Kernel.dirOf,
      if_neg hne, dirFlags, decide_eq_true hne]
    rfl

theorem virtualIsMapped_of_rangeMapped {pid : Pid} {size : Word} {r : Int}
    (hpid : pid = 0 ∨ k.liveProcess pid = true) (hsize : size ≠ 0)
    (h : k.vm.rangeMapped (k.dirOf pid) addr size = some r) :
    virtualIsMapped pid addr size k = .ok r k := by
  rw [virtualIsMapped, dassert, if_pos hsize, pure_bind, bind_apply_of_ok (getDir_eq hpid)]
  exact orThrow_eq_ok.mpr ⟨h, rfl⟩

end Horizon
