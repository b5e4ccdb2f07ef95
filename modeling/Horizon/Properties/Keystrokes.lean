import Horizon.Lib.StateError
import Horizon.User.Keyboard

/-!
# Horizon — the order of the keys

A reader of the keyboard should get the keys in the order in which they were typed. The driver keeps
the pending keys in a circular buffer that is filled and emptied at the same end: it is a stack
(`KbdDriver.stack`), and a read returns the keys that came last. The order is kept as long as no
more than one key is pending whenever keys are read.
-/

namespace Horizon

open StateError

variable {d d' : KbdDriver} {key : BitVec 8} {n : ℕ}

/-! ## The buffer is a stack -/

/-- The pending keys, the latest first. -/
def KbdDriver.stack (d : KbdDriver) : List (BitVec 8) :=
  (List.range d.bufferCount).map fun i => d.keyBuffer ((d.bufferPos + 15 - i) % 16)

theorem stack_length : d.stack.length = d.bufferCount := by
  rw [KbdDriver.stack, List.length_map, List.length_range]

/-- A key that is kept is the latest, as long as there is room for it. -/
theorem stack_push (hpos : d.bufferPos < 16) (hcount : d.bufferCount < 15) :
    (d.push key).stack = key :: d.stack := by
  have hroom : ¬bufferSize ≤ d.bufferCount + 1 := by
    show ¬16 ≤ d.bufferCount + 1
    omega
  have hcount' : (d.push key).bufferCount = d.bufferCount + 1 := if_neg hroom
  have hbuffer : (d.push key).keyBuffer = Function.update d.keyBuffer d.bufferPos key := rfl
  have hpos' : (d.push key).bufferPos = (d.bufferPos + 1) % 16 := rfl
  rw [KbdDriver.stack, hcount', hbuffer, hpos', List.range_succ_eq_map, List.map_cons, List.map_map,
    show ((d.bufferPos + 1) % 16 + 15 - 0) % 16 = d.bufferPos by omega, Function.update_self]
  refine congrArg (List.cons key) (List.map_congr_left fun i hi => ?_)
  have hi := List.mem_range.mp hi
  have hslot : ((d.bufferPos + 1) % 16 + 15 - (i + 1)) % 16 = (d.bufferPos + 15 - i) % 16 := by
    omega
  rw [Function.comp_apply, Nat.succ_eq_add_one, hslot, Function.update_of_ne (by omega)]

/-- The driver after one round of a read. -/
def KbdDriver.popped (d : KbdDriver) : KbdDriver :=
  { d with
    bufferPos := if d.bufferPos ≠ 0 then d.bufferPos - 1 else bufferSize - 1
    bufferCount := d.bufferCount - 1 }

theorem popped_pos (hpos : d.bufferPos < 16) : d.popped.bufferPos = (d.bufferPos + 15) % 16 := by
  show (if d.bufferPos ≠ 0 then d.bufferPos - 1 else 16 - 1) = _
  split
  · omega
  · omega

theorem stack_popped (hpos : d.bufferPos < 16) (hcount : d.bufferCount < 16)
    (hpending : d.bufferCount ≠ 0) :
    d.stack = d.keyBuffer d.popped.bufferPos :: d.popped.stack := by
  obtain ⟨count, hsucc⟩ := Nat.exists_eq_succ_of_ne_zero hpending
  have hrest : d.popped.bufferCount = count := by
    show d.bufferCount - 1 = count
    omega
  rw [KbdDriver.stack, hsucc, List.range_succ_eq_map, List.map_cons, List.map_map, KbdDriver.stack,
    hrest, popped_pos hpos, Nat.sub_zero]
  refine congrArg (List.cons _) (List.map_congr_left fun i hi => ?_)
  have hi := List.mem_range.mp hi
  have hslot : (d.bufferPos + 15 - (i + 1)) % 16 = ((d.bufferPos + 15) % 16 + 15 - i) % 16 := by
    omega
  rw [Function.comp_apply, Nat.succ_eq_add_one, hslot]
  rfl

theorem readLoop_eq (hpos : d.bufferPos < 16) (hcount : d.bufferCount < 16) :
    ∃ d', KbdDriver.readLoop n d = (d.stack.take n, d') ∧ d'.stack = d.stack.drop n ∧
      d'.bufferPos < 16 ∧ d'.ps2 = d.ps2 := by
  induction n generalizing d with
  | zero => exact ⟨d, by rw [KbdDriver.readLoop, List.take_zero], rfl, hpos, rfl⟩
  | succ n ih =>
    rw [KbdDriver.readLoop]
    by_cases hempty : d.bufferCount = 0
    · have hstack : d.stack = [] := by rw [KbdDriver.stack, hempty, List.range_zero, List.map_nil]
      exact ⟨d, by rw [if_pos hempty, hstack, List.take_nil], by rw [hstack, List.drop_nil], hpos,
        rfl⟩
    · have hpos' : d.popped.bufferPos < 16 := by
        rw [popped_pos hpos]
        exact Nat.mod_lt _ (by decide)
      have hcount' : d.popped.bufferCount < 16 := (Nat.sub_le _ _).trans_lt hcount
      obtain ⟨d', hread, hstack, hlast, hps2⟩ := ih hpos' hcount'
      refine ⟨d', ?_, ?_, hlast, hps2⟩
      · rw [if_neg hempty, stack_popped hpos hcount hempty, List.take_succ_cons]
        show (_ :: (KbdDriver.readLoop n d.popped).1, (KbdDriver.readLoop n d.popped).2) = _
        rw [hread]
        rfl
      · rw [hstack, stack_popped hpos hcount hempty, List.drop_succ_cons]

/-! ## Sessions -/

/-- The driver, the keys typed so far, and those returned so far. -/
structure KbdSession where
  driver : KbdDriver := {}
  typed : List (BitVec 8) := []
  returned : List (BitVec 8) := []

/-- The keys that a message adds to those typed. -/
def KbdDriver.typing (d : KbdDriver) : KbdRequest → List (BitVec 8)
  | .irq val => [(ps2kbdRead val d.ps2).1].filter isAscii
  | _ => []

namespace KbdSession

def step (s : KbdSession) (req : KbdRequest) : Option KbdSession :=
  some { driver := (s.driver.handle req).2
         typed := s.typed ++ s.driver.typing req
         returned := s.returned ++ (s.driver.handle req).1 }

/-- The number of keys that have been typed and not been returned. -/
def pending (s : KbdSession) : ℕ := s.typed.length - s.returned.length

/-- There are never more keys pending than the buffer has room for. -/
def Bounded (_ : KbdSession) (_ : KbdRequest) (s' : KbdSession) : Prop :=
  s'.pending ≤ bufferSize - 1

/-- A request for keys comes when at most one key is pending. -/
def Single (s : KbdSession) (req : KbdRequest) (s' : KbdSession) : Prop :=
  Bounded s req s' ∧ ∀ count, req = .read count → count ≠ 0 → s.pending ≤ 1

/-- The keys returned and the keys pending are those typed, in that order. -/
structure InOrder (s : KbdSession) : Prop where
  pos : s.driver.bufferPos < 16
  count : s.driver.bufferCount < 16
  typed : s.typed = s.returned ++ s.driver.stack.reverse

end KbdSession

variable {s s' : KbdSession} {req : KbdRequest} {reqs : List KbdRequest}

theorem KbdSession.InOrder.pending_eq (h : s.InOrder) : s.pending = s.driver.bufferCount := by
  rw [KbdSession.pending, h.typed, List.length_append, List.length_reverse, stack_length,
    Nat.add_sub_cancel_left]

/-- An interrupt either gives a key, which is kept, or nothing. -/
theorem irq_cases (d : KbdDriver) (val : BitVec 8) : ∃ ps2,
    (∃ key, d.typing (.irq val) = [key] ∧ d.irq val = KbdDriver.push { d with ps2 } key) ∨
      d.typing (.irq val) = [] ∧ d.irq val = { d with ps2 } := by
  cases hread : ps2kbdRead val d.ps2 with
  | mk key ps2 =>
    have hirq : d.irq val =
        if isAscii key then KbdDriver.push { d with ps2 } key else { d with ps2 } := by
      rw [KbdDriver.irq, hread]
    refine ⟨ps2, ?_⟩
    cases hkey : isAscii key with
    | true =>
      rw [hkey, if_pos rfl] at hirq
      exact Or.inl ⟨key, by simp [KbdDriver.typing, hread, hkey], hirq⟩
    | false =>
      rw [hkey, if_neg (by decide)] at hirq
      exact Or.inr ⟨by simp [KbdDriver.typing, hread, hkey], hirq⟩

theorem KbdSession.InOrder.irq {val : BitVec 8} (h : s.InOrder)
    (hstep : s.step (.irq val) = some s') (hroom : s'.pending ≤ 15) : s'.InOrder := by
  obtain rfl := Option.some.inj hstep
  obtain ⟨ps2, ⟨key, htyping, hirq⟩ | ⟨htyping, hirq⟩⟩ := irq_cases s.driver val
  · have hpending : s.typed.length + 1 - s.returned.length ≤ 15 := by
      simpa [KbdSession.pending, htyping, KbdDriver.handle] using hroom
    have htyped := congrArg List.length h.typed
    rw [List.length_append, List.length_reverse, stack_length] at htyped
    have hcount : s.driver.bufferCount < 15 := by omega
    have hstack : (s.driver.irq val).stack = key :: s.driver.stack := by
      rw [hirq]
      exact stack_push (d := { s.driver with ps2 }) h.pos hcount
    refine ⟨?_, ?_, ?_⟩
    · show (s.driver.irq val).bufferPos < 16
      rw [hirq]
      exact Nat.mod_lt _ (by decide)
    · show (s.driver.irq val).bufferCount < 16
      rw [← stack_length, hstack, List.length_cons, stack_length]
      omega
    · show s.typed ++ s.driver.typing (.irq val) = s.returned ++ [] ++ _
      show _ = _ ++ (s.driver.irq val).stack.reverse
      rw [htyping, hstack, List.reverse_cons, h.typed, List.append_nil, List.append_assoc]
  · refine ⟨?_, ?_, ?_⟩
    · show (s.driver.irq val).bufferPos < 16
      rw [hirq]
      exact h.pos
    · show (s.driver.irq val).bufferCount < 16
      rw [hirq]
      exact h.count
    · show s.typed ++ s.driver.typing (.irq val) = s.returned ++ [] ++ _
      show _ = _ ++ (s.driver.irq val).stack.reverse
      rw [htyping, hirq, List.append_nil, List.append_nil]
      exact h.typed

theorem KbdSession.InOrder.read_eq {count : Word} (h : s.InOrder)
    (hstep : s.step (.read count) = some s') : s'.typed = s.typed ∧
      s'.returned = s.returned ++ s.driver.stack.take count.toNat ∧
      s'.driver.stack = s.driver.stack.drop count.toNat ∧ s'.driver.bufferPos < 16 := by
  obtain ⟨d', hread, hstack, hpos, -⟩ := readLoop_eq (n := count.toNat) h.pos h.count
  obtain rfl := Option.some.inj hstep
  have hhandle : s.driver.handle (.read count) = (s.driver.stack.take count.toNat, d') := hread
  rw [hhandle]
  exact ⟨List.append_nil _, rfl, hstack, hpos⟩

theorem reverse_of_length_le_one {α : Type} {l : List α} (h : l.length ≤ 1) : l.reverse = l :=
  match l, h with
  | [], _ => rfl
  | [_], _ => rfl

/-- A stack of one key is a queue. -/
theorem KbdSession.InOrder.read {count : Word} (h : s.InOrder)
    (hstep : s.step (.read count) = some s') (hsingle : count ≠ 0 → s.pending ≤ 1) :
    s'.InOrder := by
  obtain ⟨htyped, hreturned, hstack, hpos⟩ := h.read_eq hstep
  have hcount : s'.driver.bufferCount < 16 := by
    rw [← stack_length, hstack, List.length_drop, stack_length]
    exact (Nat.sub_le _ _).trans_lt h.count
  refine ⟨hpos, hcount, ?_⟩
  rw [htyped, hreturned, hstack, h.typed]
  by_cases hzero : count = 0
  · rw [hzero]
    simp
  · have hone : s.driver.stack.length ≤ 1 := by
      rw [stack_length, ← h.pending_eq]
      exact hsingle hzero
    have hpos : 1 ≤ count.toNat :=
      Nat.one_le_iff_ne_zero.mpr fun h => hzero (BitVec.eq_of_toNat_eq h)
    rw [List.take_of_length_le (hone.trans hpos), List.drop_of_length_le (hone.trans hpos),
      List.reverse_nil, List.append_nil, reverse_of_length_le_one hone]

theorem KbdSession.InOrder.step (h : s.InOrder) (hstep : s.step req = some s')
    (hguard : KbdSession.Single s req s') : s'.InOrder := by
  cases req with
  | irq val => exact h.irq hstep hguard.1
  | read count => exact h.read hstep (hguard.2 count rfl)
  | other =>
    obtain rfl := Option.some.inj hstep
    refine ⟨h.pos, h.count, ?_⟩
    show s.typed ++ [] = s.returned ++ [] ++ _
    rw [List.append_nil, List.append_nil]
    exact h.typed

theorem KbdSession.inOrder_initial : ({} : KbdSession).InOrder := ⟨by decide, by decide, rfl⟩

/-! ## Runs -/

theorem KbdSession.extends_of_run {P : KbdSession → KbdRequest → KbdSession → Prop}
    (hrun : Steps KbdSession.step P s reqs s') :
    s.typed <+: s'.typed ∧ s.returned <+: s'.returned := by
  refine hrun.invariant (I := fun t => s.typed <+: t.typed ∧ s.returned <+: t.returned)
    (fun t req t' ht hstep _ => ?_) ⟨List.prefix_rfl, List.prefix_rfl⟩
  obtain rfl := Option.some.inj hstep
  exact ⟨ht.1.trans (List.prefix_append _ _), ht.2.trans (List.prefix_append _ _)⟩

/-- If keys are read while two of them are pending, the first of those returned is not the one that
was typed first. -/
theorem KbdSession.InOrder.out_of_order {count : Word} (h : s.InOrder)
    (hstep : s.step (.read count) = some s') (hcount : count ≠ 0) (hpending : 1 < s.pending)
    {typed returned : List (BitVec 8)} (htyped : s'.typed <+: typed)
    (hreturned : s'.returned <+: returned) (hnodup : typed.Nodup) : ¬returned <+: typed := by
  intro hbefore
  obtain ⟨htyped', hreturned', -, -⟩ := h.read_eq hstep
  obtain ⟨n, hn⟩ := Nat.exists_eq_succ_of_ne_zero fun h => hcount (BitVec.eq_of_toNat_eq h)
  rw [h.pending_eq, ← stack_length] at hpending
  cases hstack : s.driver.stack with
  | nil =>
    rw [hstack] at hpending
    exact absurd hpending (by decide)
  | cons latest rest =>
    cases rest using List.reverseRecOn with
    | nil =>
      rw [hstack] at hpending
      exact absurd hpending (Nat.lt_irrefl 1)
    | append_singleton rest oldest =>
      obtain ⟨a, ha⟩ := htyped
      obtain ⟨b, hb⟩ := hreturned.trans hbefore
      rw [htyped', h.typed, hstack] at ha
      rw [hreturned', hstack, hn, List.take_succ_cons] at hb
      have hfirst : oldest = latest := by
        have heq := ha.trans hb.symm
        simp only [List.reverse_cons, List.reverse_append, List.reverse_nil, List.nil_append,
          List.append_assoc, List.cons_append, List.append_cancel_left_eq,
          List.cons.injEq] at heq
        exact heq.1
      have hstackNodup : (latest :: (rest ++ [oldest])).Nodup := by
        rw [← ha] at hnodup
        exact List.nodup_reverse.mp hnodup.of_append_left.of_append_right
      exact (List.nodup_cons.mp hstackNodup).1 (by rw [hfirst]; simp)

/-- In a run that returns different keys in order, at most one was pending at each read. -/
theorem KbdSession.InOrder.single_of_prefix (h : s.InOrder)
    (hrun : Steps KbdSession.step KbdSession.Bounded s reqs s') (hnodup : s'.typed.Nodup)
    (hbefore : s'.returned <+: s'.typed) : Steps KbdSession.step KbdSession.Single s reqs s' := by
  induction hrun with
  | nil t => exact .nil t
  | @cons t t' _ req _ hstep hguard hrest ih =>
    have hsingle : KbdSession.Single t req t' := by
      refine ⟨hguard, fun count hreq hcount => ?_⟩
      subst hreq
      by_contra hmany
      obtain ⟨htyped, hreturned⟩ := KbdSession.extends_of_run hrest
      exact h.out_of_order hstep hcount (not_le.mp hmany) htyped hreturned hnodup hbefore
    exact .cons hstep hsingle (ih (h.step hstep hsingle) hnodup hbefore)

/-- Keys are delivered in the order in which they are typed if at most one is pending whenever some
are read, and only then if all the keys are different. -/
theorem keys_in_order_of_single (hrun : Steps KbdSession.step KbdSession.Bounded {} reqs s) :
    (Steps KbdSession.step KbdSession.Single {} reqs s → s.returned <+: s.typed) ∧
    (s.typed.Nodup → s.returned <+: s.typed →
      Steps KbdSession.step KbdSession.Single {} reqs s) := by
  refine ⟨fun hsingle => ?_, KbdSession.inOrder_initial.single_of_prefix hrun⟩
  have horder := hsingle.invariant (fun _ _ _ h => h.step) KbdSession.inOrder_initial
  rw [horder.typed]
  exact List.prefix_append _ _

/-- The keys a and b are typed and read one after the other. -/
theorem keys_read_singly : ∃ s, Steps KbdSession.step KbdSession.Single {}
    [.irq 0x1C, .read 2, .irq 0x32, .read 2] s ∧
    s.typed = [ascii 'a', ascii 'b'] ∧ s.returned.length = 2 ∧ s.returned <+: s.typed := by
  have hcheck : ∀ (s : KbdSession) (req : KbdRequest) (s' : KbdSession),
      decide (s'.pending ≤ 15 ∧ s.pending ≤ 1) = true → KbdSession.Single s req s' := by
    intro s req s' hboth
    obtain ⟨hroom, hsingle⟩ := of_decide_eq_true hboth
    exact ⟨hroom, fun _ _ _ => hsingle⟩
  have hany : (runEvents (checked KbdSession.step fun s _ s' =>
      decide (s'.pending ≤ 15 ∧ s.pending ≤ 1)) {} [.irq 0x1C, .read 2, .irq 0x32, .read 2]).any
      (fun s => s.typed = [ascii 'a', ascii 'b'] ∧ s.returned.length = 2) = true := by
    decide +kernel
  obtain ⟨s, hrun, hkeys⟩ := exists_steps_of_any hcheck hany
  obtain ⟨htyped, hlength⟩ := of_decide_eq_true hkeys
  have hbounded : Steps KbdSession.step KbdSession.Bounded {} _ s :=
    hrun.mono fun _ _ _ _ hguard => hguard.1
  exact ⟨s, hrun, htyped, hlength, (keys_in_order_of_single hbounded).1 hrun⟩

/-- The keys a and b are typed, and read together: they come back the other way round. -/
theorem keys_reversed : ∃ s, Steps KbdSession.step KbdSession.Bounded {}
    [.irq 0x1C, .irq 0x32, .read 2] s ∧ s.typed = [ascii 'a', ascii 'b'] ∧
    s.returned = [ascii 'b', ascii 'a'] ∧ ¬s.returned <+: s.typed := by
  have hcheck : ∀ (s : KbdSession) (req : KbdRequest) (s' : KbdSession),
      decide (s'.pending ≤ 15) = true → KbdSession.Bounded s req s' := by
    intro s req s' hroom
    rw [KbdSession.Bounded]
    exact of_decide_eq_true hroom
  have hany : (runEvents (checked KbdSession.step fun _ _ s' => decide (s'.pending ≤ 15)) {}
      [.irq 0x1C, .irq 0x32, .read 2]).any (fun s => s.typed = [ascii 'a', ascii 'b'] ∧
        s.returned = [ascii 'b', ascii 'a']) = true := by decide +kernel
  obtain ⟨s, hrun, hkeys⟩ := exists_steps_of_any hcheck hany
  obtain ⟨htyped, hreturned⟩ := of_decide_eq_true hkeys
  refine ⟨s, hrun, htyped, hreturned, ?_⟩
  rw [htyped, hreturned]
  decide

end Horizon
