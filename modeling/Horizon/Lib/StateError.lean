import Mathlib.Logic.Basic
import Mathlib.Tactic.Common

/-!
# Programs over a state with an error exit

Inversion rules for `EStateM`, the relational frame rule `Ensures`, and runs of a guarded
transition function. Nothing here depends on which machine is modelled:

* `bind_eq_ok`, `get_eq_ok`, … peel a successful `do` block apart from the outside in, so
  that a proof about a long program never unfolds the monad itself;
* `Ensures R x` says that every execution of `x` relates the states it starts and stops in
  by `R`; it composes along `>>=` whenever `R` is a preorder;
* `Post Q E` is a postcondition for both exits of a program;
* `Agree Q` compares the outcomes of two programs, and composes along `>>=` on both sides;
* `Ignores f x` says that `x` does not see what `f` changes, and does the same before and after;
* `zoom` runs a program on one component of a larger state, so what it leaves alone is
  visible from its type;
* `Steps` is the finite runs of a transition function in which every step meets a guard,
  with the usual invariant rule.
-/

namespace StateError

variable {ε σ τ α β : Type}

/-! ## Execution from a known state -/

theorem bind_apply {x : EStateM ε σ α} {f : α → EStateM ε σ β} {s : σ} : (x >>= f) s =
      match x s with
      | .ok a t => f a t
      | .error e t => .error e t := rfl

theorem get_apply {s : σ} : (get : EStateM ε σ σ) s = .ok s s := rfl

theorem modify_apply {f : σ → σ} {s : σ} : (modify f : EStateM ε σ PUnit) s = .ok ⟨⟩ (f s) := rfl

theorem pure_apply {a : α} {s : σ} : (pure a : EStateM ε σ α) s = .ok a s := rfl

theorem throw_apply {e : ε} {s : σ} : (throw e : EStateM ε σ α) s = .error e s := rfl

theorem get_bind_apply {f : σ → EStateM ε σ β} {s : σ} : (get >>= f) s = f s s := rfl

theorem modify_bind_apply {g : σ → σ} {f : PUnit → EStateM ε σ β} {s : σ} :
    (modify g >>= f) s = f ⟨⟩ (g s) := rfl

theorem bind_apply_of_ok {x : EStateM ε σ α} {f : α → EStateM ε σ β} {s t : σ} {a : α}
    (h : x s = .ok a t) : (x >>= f) s = f a t := by
  rw [bind_apply, h]

theorem bind_apply_of_error {x : EStateM ε σ α} {f : α → EStateM ε σ β} {s t : σ} {e : ε}
    (h : x s = .error e t) : (x >>= f) s = .error e t := by
  rw [bind_apply, h]

/-- What follows a program matters only in the states it returns in. -/
theorem bind_congr_ok {x : EStateM ε σ α} {f g : α → EStateM ε σ β} {s : σ}
    (h : ∀ a t, x s = .ok a t → f a t = g a t) : (x >>= f) s = (x >>= g) s := by
  rw [bind_apply, bind_apply]
  cases hx : x s with
  | ok a t => exact h a t hx
  | error e t => rfl

/-! ## Inversion of a successful execution -/

@[simp] theorem bind_eq_ok {x : EStateM ε σ α} {f : α → EStateM ε σ β} {s s' : σ} {b : β} :
    (x >>= f) s = .ok b s' ↔ ∃ a t, x s = .ok a t ∧ f a t = .ok b s' := by
  simp only [bind, EStateM.bind]
  cases x s <;> simp

@[simp] theorem map_eq_ok {x : EStateM ε σ α} {f : α → β} {s s' : σ} {b : β} :
    (f <$> x) s = .ok b s' ↔ ∃ a, x s = .ok a s' ∧ f a = b := by
  simp only [Functor.map, EStateM.map]
  cases x s with
  | ok a t =>
    simp only [EStateM.Result.ok.injEq]
    constructor
    · rintro ⟨rfl, rfl⟩
      exact ⟨a, ⟨rfl, rfl⟩, rfl⟩
    · rintro ⟨_, ⟨rfl, rfl⟩, rfl⟩
      exact ⟨rfl, rfl⟩
  | error e t => simp

theorem bind_eq_error {x : EStateM ε σ α} {f : α → EStateM ε σ β} {s s' : σ} {e : ε} :
    (x >>= f) s = .error e s' ↔
      x s = .error e s' ∨ ∃ a t, x s = .ok a t ∧ f a t = .error e s' := by
  simp only [bind, EStateM.bind]
  cases x s <;> simp

@[simp] theorem pure_eq_ok {a b : α} {s s' : σ} :
    (pure a : EStateM ε σ α) s = .ok b s' ↔ a = b ∧ s = s' := by
  simp [pure, EStateM.pure]

@[simp] theorem get_eq_ok {s t s' : σ} : (get : EStateM ε σ σ) s = .ok t s' ↔ s = t ∧ s = s' := by
  show EStateM.Result.ok s s = .ok t s' ↔ _
  rw [EStateM.Result.ok.injEq]

@[simp] theorem modify_eq_ok {f : σ → σ} {u : PUnit} {s s' : σ} :
    (modify f : EStateM ε σ PUnit) s = .ok u s' ↔ s' = f s := by
  show EStateM.Result.ok PUnit.unit (f s) = .ok u s' ↔ _
  rw [EStateM.Result.ok.injEq, and_iff_right rfl, eq_comm]

theorem throw_ne_ok {e : ε} {a : α} {s s' : σ} : (throw e : EStateM ε σ α) s ≠ .ok a s' := by
  intro h
  cases (show EStateM.Result.error e s = .ok a s' from h)

@[simp] theorem throw_eq_ok {e : ε} {a : α} {s s' : σ} :
    (throw e : EStateM ε σ α) s = .ok a s' ↔ False := iff_false_intro throw_ne_ok

theorem ite_bind {c : Prop} [Decidable c] {x y : EStateM ε σ α} {f : α → EStateM ε σ β} :
    (if c then x else y) >>= f = if c then x >>= f else y >>= f :=
  apply_ite (· >>= f) c x y

@[simp] theorem ite_eq_ok {c : Prop} [Decidable c] {x y : EStateM ε σ α} {s s' : σ} {a : α} :
    (if c then x else y) s = .ok a s' ↔ c ∧ x s = .ok a s' ∨ ¬c ∧ y s = .ok a s' := by
  by_cases hc : c <;> simp [hc]

/-- The value of an option, or an error exit. -/
def orThrow (e : ε) : Option α → EStateM ε σ α
  | some a => pure a
  | none => throw e

@[simp] theorem orThrow_eq_ok {e : ε} {o : Option α} {a : α} {s s' : σ} :
    orThrow e o s = .ok a s' ↔ o = some a ∧ s = s' := by
  cases o with
  | none => exact ⟨fun h => absurd h throw_ne_ok, fun h => absurd h.1 nofun⟩
  | some b => rw [orThrow, pure_eq_ok, Option.some.injEq]

/-- An error exit under a condition. -/
def failIf (c : Prop) [Decidable c] (e : ε) : EStateM ε σ Unit := if c then throw e else pure ()

theorem failIf_neg {c : Prop} [Decidable c] {e : ε} {s : σ} (h : ¬c) : failIf c e s = .ok () s := by
  rw [failIf, if_neg h, pure_apply]

@[simp] theorem failIf_eq_ok {c : Prop} [Decidable c] {e : ε} {u : Unit} {s s' : σ} :
    failIf c e s = .ok u s' ↔ ¬c ∧ s = s' := by
  by_cases h : c <;> simp [failIf, h]

/-- A program run under a condition. -/
def runIf (c : Prop) [Decidable c] (x : EStateM ε σ Unit) : EStateM ε σ Unit :=
  if c then x else pure ()

@[simp] theorem runIf_eq_ok {c : Prop} [Decidable c] {x : EStateM ε σ Unit} {u : Unit}
    {s s' : σ} : runIf c x s = .ok u s' ↔ c ∧ x s = .ok u s' ∨ ¬c ∧ s = s' := by
  by_cases h : c <;> simp [runIf, h]

/-- A loop over a list whose rounds return without a change. -/
theorem mapM_apply_of_ok {f : β → EStateM ε σ α} {g : β → α} {l : List β} {s : σ}
    (h : ∀ b ∈ l, f b s = .ok (g b) s) : l.mapM f s = .ok (l.map g) s := by
  induction l with
  | nil => rfl
  | cons b l ih =>
    rw [List.mapM_cons, bind_apply_of_ok (h b List.mem_cons_self),
      bind_apply_of_ok (ih fun c hc => h c (List.mem_cons_of_mem b hc))]
    rfl

theorem forM_invariant {f : α → EStateM ε σ PUnit} {I : σ → Prop}
    (hf : ∀ a s s', f a s = .ok ⟨⟩ s' → I s → I s') {l : List α} {s s' : σ}
    (h : l.forM f s = .ok ⟨⟩ s') (hs : I s) : I s' := by
  induction l generalizing s with
  | nil =>
    obtain ⟨-, rfl⟩ := pure_eq_ok.mp h
    exact hs
  | cons a l ih =>
    obtain ⟨_, t, hfirst, hrest⟩ := bind_eq_ok.mp h
    exact ih hrest (hf a s t hfirst hs)

section Range

variable {f : ℕ → EStateM ε σ PUnit} {I : ℕ → σ → Prop} {n : ℕ} {s s' : σ}

theorem forM_range_succ : (List.range (n + 1)).forM f s = .ok ⟨⟩ s' ↔
    ∃ t, (List.range n).forM f s = .ok ⟨⟩ t ∧ f n t = .ok ⟨⟩ s' := by
  rw [List.range_succ, List.forM_eq_forM, List.forM_append, bind_eq_ok]
  simp only [List.forM_cons, List.forM_nil, bind_pure_unit]
  exact ⟨fun ⟨⟨⟩, t, h⟩ => ⟨t, h⟩, fun ⟨t, h⟩ => ⟨⟨⟩, t, h⟩⟩

/-- A counting loop that returns, with an invariant that follows the counter. -/
theorem forM_range_partial (hf : ∀ i < n, ∀ s s', I i s → f i s = .ok ⟨⟩ s' → I (i + 1) s')
    (h : (List.range n).forM f s = .ok ⟨⟩ s') (hs : I 0 s) : I n s' := by
  induction n generalizing s' with
  | zero =>
    obtain ⟨-, rfl⟩ := pure_eq_ok.mp h
    exact hs
  | succ n ih =>
    obtain ⟨t, hfirst, hlast⟩ := forM_range_succ.mp h
    exact hf n n.lt_succ_self t s' (ih (fun i hi => hf i (Nat.lt_succ_of_lt hi)) hfirst) hlast

theorem forM_range_total (hf : ∀ i < n, ∀ s, I i s → ∃ s', f i s = .ok ⟨⟩ s' ∧ I (i + 1) s')
    (hs : I 0 s) : ∃ s', (List.range n).forM f s = .ok ⟨⟩ s' ∧ I n s' := by
  induction n with
  | zero => exact ⟨s, rfl, hs⟩
  | succ n ih =>
    obtain ⟨t, hfirst, ht⟩ := ih fun i hi => hf i (Nat.lt_succ_of_lt hi)
    obtain ⟨s', hlast, hs'⟩ := hf n n.lt_succ_self t ht
    exact ⟨s', forM_range_succ.mpr ⟨t, hfirst, hlast⟩, hs'⟩

end Range

/-- The state a program stops in, whether it returns or exits with an error. -/
def final : EStateM.Result ε σ α → σ
  | .ok _ s => s
  | .error _ s => s

@[simp] theorem final_error (e : ε) (s : σ) : final (.error e s : EStateM.Result ε σ α) = s := rfl

theorem final_bind {x : EStateM ε σ α} {f : α → EStateM ε σ β} {s : σ} : final ((x >>= f) s) =
      match x s with
      | .ok a t => final (f a t)
      | .error _ t => t := by
  simp only [bind, EStateM.bind]
  cases x s <;> rfl

/-! ## Relational frame rules -/

/-- Every execution of `x`, whether it returns or not, relates its start and end states
by `R`. -/
def Ensures (R : σ → σ → Prop) (x : EStateM ε σ α) : Prop := ∀ s, R s (final (x s))

namespace Ensures

variable {R Q : σ → σ → Prop} {x : EStateM ε σ α} {f : α → EStateM ε σ β}

theorem ok {s s' : σ} {a : α} (hx : Ensures R x) (h : x s = .ok a s') : R s s' := by
  have hs := hx s
  rwa [h] at hs

theorem error {s s' : σ} {e : ε} (hx : Ensures R x) (h : x s = .error e s') : R s s' := by
  have hs := hx s
  rwa [h] at hs

theorem mono (hx : Ensures R x) (h : ∀ s s', R s s' → Q s s') : Ensures Q x :=
  fun s => h s _ (hx s)

theorem modify {g : σ → σ} (h : ∀ s, R s (g s)) : Ensures R (modify g : EStateM ε σ PUnit) := h

theorem ite {c : Prop} [Decidable c] {y z : EStateM ε σ α} (hy : Ensures R y)
    (hz : Ensures R z) : Ensures R (if c then y else z) := by
  split
  · exact hy
  · exact hz

theorem bind [IsTrans σ R] (hx : Ensures R x) (hf : ∀ a, Ensures R (f a)) :
    Ensures R (x >>= f) := by
  intro s
  have hs := hx s
  rw [final_bind]
  cases hxs : x s with
  | ok a t =>
    rw [hxs] at hs
    exact IsTrans.trans _ _ _ hs (hf a t)
  | error e t =>
    rw [hxs] at hs
    exact hs

variable [Std.Refl R]

theorem pure (a : α) : Ensures R (pure a : EStateM ε σ α) := fun s => Std.Refl.refl s

theorem throw (e : ε) : Ensures R (throw e : EStateM ε σ α) := fun s => Std.Refl.refl s

theorem get : Ensures R (get : EStateM ε σ σ) := fun s => Std.Refl.refl s

theorem orThrow (e : ε) (o : Option α) : Ensures R (orThrow e o : EStateM ε σ α) := by
  cases o with
  | none => exact throw e
  | some a => exact pure a

theorem failIf (c : Prop) [Decidable c] (e : ε) :
    Ensures R (failIf c e : EStateM ε σ Unit) := ite (throw e) (pure ())

theorem runIf {c : Prop} [Decidable c] {x : EStateM ε σ Unit} (hx : Ensures R x) :
    Ensures R (runIf c x) := ite hx (pure ())

theorem forM [IsTrans σ R] {β : Type} {g : β → EStateM ε σ PUnit} (hg : ∀ b, Ensures R (g b))
    (l : List β) : Ensures R (l.forM g) := by
  induction l with
  | nil => exact pure _
  | cons b l ih => exact bind (hg b) fun _ => ih

theorem mapM [IsTrans σ R] {β γ : Type} {g : β → EStateM ε σ γ} (hg : ∀ b, Ensures R (g b))
    (l : List β) : Ensures R (l.mapM g) := by
  induction l with
  | nil => exact pure _
  | cons b l ih =>
    rw [List.mapM_cons]
    exact bind (hg b) fun _ => bind ih fun _ => pure _

end Ensures

/-! ## Programs that do not stop with a given error -/

def Never (e : ε) (x : EStateM ε σ α) : Prop := ∀ s s', x s ≠ .error e s'

namespace Never

variable {e e' : ε} {x : EStateM ε σ α} {f : α → EStateM ε σ β}

theorem pure (a : α) : Never e (pure a : EStateM ε σ α) := nofun

theorem get : Never e (get : EStateM ε σ σ) := nofun

theorem modify (g : σ → σ) : Never e (modify g : EStateM ε σ PUnit) := nofun

theorem throw (h : e' ≠ e) : Never e (throw e' : EStateM ε σ α) := by
  intro s s' hs
  cases hs
  exact h rfl

theorem orThrow (h : e' ≠ e) (o : Option α) : Never e (orThrow e' o : EStateM ε σ α) := by
  cases o with
  | none => exact throw h
  | some a => exact pure a

theorem bind (hx : Never e x) (hf : ∀ a, Never e (f a)) : Never e (x >>= f) := by
  intro s s' h
  rcases bind_eq_error.mp h with h | ⟨a, t, -, h⟩
  · exact hx s s' h
  · exact hf a t s' h

theorem ite {c : Prop} [Decidable c] {y z : EStateM ε σ α} (hy : Never e y) (hz : Never e z) :
    Never e (if c then y else z) := by
  split
  · exact hy
  · exact hz

theorem failIf (h : e' ≠ e) (c : Prop) [Decidable c] :
    Never e (failIf c e' : EStateM ε σ Unit) := ite (throw h) (pure ())

theorem runIf {c : Prop} [Decidable c] {x : EStateM ε σ Unit} (hx : Never e x) :
    Never e (runIf c x) := ite hx (pure ())

end Never

/-! ## Postconditions for both exits -/

/-- The outcome satisfies `Q` if the program returned, and `E` if it stopped. -/
def Post (Q : α → σ → Prop) (E : ε → σ → Prop) : EStateM.Result ε σ α → Prop
  | .ok a s => Q a s
  | .error e s => E e s

namespace Post

variable {Q Q' : α → σ → Prop} {P : β → σ → Prop} {E E' : ε → σ → Prop} {R : σ → σ → Prop}
  {x : EStateM ε σ α} {f : α → EStateM ε σ β} {s : σ}

theorem bind (hx : Post Q E (x s)) (hf : ∀ a t, Q a t → Post P E (f a t)) :
    Post P E ((x >>= f) s) := by
  rw [bind_apply]
  cases h : x s with
  | ok a t =>
    rw [h] at hx
    exact hf a t hx
  | error e t =>
    rw [h] at hx
    exact hx

theorem mono {r : EStateM.Result ε σ α} (h : Post Q E r) (hQ : ∀ a t, Q a t → Q' a t)
    (hE : ∀ e t, E e t → E' e t) : Post Q' E' r := by
  cases r with
  | ok a t => exact hQ a t h
  | error e t => exact hE e t h

theorem ite {c : Prop} [Decidable c] {y : EStateM ε σ α} (hx : c → Post Q E (x s))
    (hy : ¬c → Post Q E (y s)) : Post Q E ((if c then x else y) s) := by
  split
  · next hc => exact hx hc
  · next hc => exact hy hc

theorem runIf {c : Prop} [Decidable c] {x : EStateM ε σ Unit} {Q : Unit → σ → Prop}
    (hx : c → Post Q E (x s)) (hneg : ¬c → Q () s) : Post Q E (runIf c x s) := by
  by_cases h : c
  · rw [StateError.runIf, if_pos h]
    exact hx h
  · rw [StateError.runIf, if_neg h]
    exact hneg h

/-- A program described by a relation between its start and end states. -/
theorem of_ensures (hx : Ensures R x) (hQ : ∀ a t, R s t → Q a t) (hE : ∀ e t, R s t → E e t) :
    Post Q E (x s) := by
  cases h : x s with
  | ok a t => exact hQ a t (hx.ok h)
  | error e t => exact hE e t (hx.error h)

theorem of_ok (hQ : ∀ a t, x s = .ok a t → Q a t) (hE : ∀ e t, x s = .error e t → E e t) :
    Post Q E (x s) := by
  cases h : x s with
  | ok a t => exact hQ a t h
  | error e t => exact hE e t h

end Post

/-! ## Two programs side by side -/

/-- Both programs returned, with results and states related by `Q`, or both stopped with the same
error. -/
inductive Agree (Q : α → σ → β → σ → Prop) :
    EStateM.Result ε σ α → EStateM.Result ε σ β → Prop where
  | ok {a : α} {b : β} {s t : σ} (h : Q a s b t) : Agree Q (.ok a s) (.ok b t)
  | error {e : ε} {s t : σ} : Agree Q (.error e s) (.error e t)

namespace Agree

variable {γ δ : Type} {Q : α → σ → β → σ → Prop} {R : γ → σ → δ → σ → Prop}
  {x : EStateM ε σ α} {y : EStateM ε σ β} {f : α → EStateM ε σ γ} {g : β → EStateM ε σ δ}
  {r : EStateM.Result ε σ α} {r' : EStateM.Result ε σ β} {s t s' : σ} {a : α} {b : β} {e : ε}

theorem of_ok (h : Agree Q r r') (hr : r = .ok a s') : ∃ b t', r' = .ok b t' ∧ Q a s' b t' := by
  cases h with
  | ok hq =>
    cases hr
    exact ⟨_, _, rfl, hq⟩
  | error => cases hr

theorem to_ok (h : Agree Q r r') (hr : r' = .ok b t) : ∃ a s', r = .ok a s' ∧ Q a s' b t := by
  cases h with
  | ok hq =>
    cases hr
    exact ⟨_, _, rfl, hq⟩
  | error => cases hr

theorem of_error (h : Agree Q r r') (hr : r = .error e s') : ∃ t', r' = .error e t' := by
  cases h with
  | ok hq => cases hr
  | error =>
    cases hr
    exact ⟨_, rfl⟩

theorem bind (hx : Agree Q (x s) (y t))
    (hf : ∀ a s' b t', x s = .ok a s' → y t = .ok b t' → Q a s' b t' → Agree R (f a s') (g b t')) :
    Agree R ((x >>= f) s) ((y >>= g) t) := by
  rw [bind_apply, bind_apply]
  cases hxs : x s with
  | ok a s' =>
    obtain ⟨b, t', hyt, hq⟩ := hx.of_ok hxs
    rw [hyt]
    exact hf a s' b t' hxs hyt hq
  | error e s' =>
    obtain ⟨t', hyt⟩ := hx.of_error hxs
    rw [hyt]
    exact .error

theorem refl (r : EStateM.Result ε σ α) : Agree (fun a s b t => a = b ∧ s = t) r r := by
  cases r with
  | ok a s => exact .ok ⟨rfl, rfl⟩
  | error e s => exact .error

theorem failIf {c : Prop} [Decidable c] {e : ε} :
    Agree (fun _ s' _ t' => s' = s ∧ t' = t) (failIf c e s) (failIf c e t) := by
  by_cases hc : c
  · rw [StateError.failIf, if_pos hc]
    exact .error
  · rw [failIf_neg hc, failIf_neg hc]
    exact .ok ⟨rfl, rfl⟩

end Agree

/-! ## Programs that do not see a part of the state -/

/-- Change the state a program stops in. -/
def mapState (f : σ → σ) : EStateM.Result ε σ α → EStateM.Result ε σ α
  | .ok a s => .ok a (f s)
  | .error e s => .error e (f s)

/-- What `f` changes has no influence on `x`, and `x` does not change it. -/
def Ignores (f : σ → σ) (x : EStateM ε σ α) : Prop := ∀ s, x (f s) = mapState f (x s)

namespace Ignores

variable {f : σ → σ} {x : EStateM ε σ α} {g : α → EStateM ε σ β}

theorem pure (a : α) : Ignores f (pure a : EStateM ε σ α) := fun _ => rfl

theorem throw (e : ε) : Ignores f (throw e : EStateM ε σ α) := fun _ => rfl

theorem modify {h : σ → σ} (hcomm : ∀ s, h (f s) = f (h s)) :
    Ignores f (modify h : EStateM ε σ PUnit) := fun s => congrArg (EStateM.Result.ok _) (hcomm s)

theorem bind (hx : Ignores f x) (hg : ∀ a, Ignores f (g a)) : Ignores f (x >>= g) := by
  intro s
  rw [bind_apply, bind_apply, hx s]
  cases x s with
  | ok a t => exact hg a t
  | error e t => rfl

/-- Looking at the state is fine as long as it is not at that part of it. -/
theorem get_bind {g : σ → EStateM ε σ β} (hsame : ∀ s, g (f s) = g s)
    (hg : ∀ s, Ignores f (g s)) : Ignores f (get >>= g) := by
  intro s
  rw [get_bind_apply, get_bind_apply, hsame]
  exact hg s s

theorem ite {c : Prop} [Decidable c] {y z : EStateM ε σ α} (hy : Ignores f y) (hz : Ignores f z) :
    Ignores f (if c then y else z) := by
  split
  · exact hy
  · exact hz

theorem orThrow (e : ε) (o : Option α) : Ignores f (orThrow e o : EStateM ε σ α) := by
  cases o with
  | none => exact throw e
  | some a => exact pure a

theorem runIf {c : Prop} [Decidable c] {y : EStateM ε σ Unit} (hy : Ignores f y) :
    Ignores f (runIf c y) := ite hy (pure ())

theorem eq_ok (hx : Ignores f x) {s t : σ} {a : α} (h : x (f s) = .ok a t) :
    ∃ t', x s = .ok a t' ∧ t = f t' := by
  rw [hx s] at h
  cases hxs : x s with
  | ok b t' =>
    rw [hxs] at h
    cases h
    exact ⟨t', rfl, rfl⟩
  | error e t' =>
    rw [hxs] at h
    cases h

theorem apply_ok (hx : Ignores f x) {s t : σ} {a : α} (h : x s = .ok a t) :
    x (f s) = .ok a (f t) := by
  rw [hx s, h]
  rfl

end Ignores

/-! ## Running a program on one component -/

/-- Run `x` on the component `view s`, writing the component back with `put`. -/
def zoom (view : σ → τ) (put : τ → σ → σ) (x : EStateM ε τ α) : EStateM ε σ α := fun s =>
  match x (view s) with
  | .ok a t => .ok a (put t s)
  | .error e t => .error e (put t s)

theorem Ignores.zoom {view : σ → τ} {put : τ → σ → σ} {x : EStateM ε τ α} {f : σ → σ}
    (hview : ∀ s, view (f s) = view s) (hput : ∀ t s, put t (f s) = f (put t s)) :
    Ignores f (zoom view put x) := by
  intro s
  rw [StateError.zoom, StateError.zoom, hview]
  cases x (view s) with
  | ok a t => exact congrArg (EStateM.Result.ok a) (hput t s)
  | error e t => exact congrArg (EStateM.Result.error e) (hput t s)

@[simp] theorem zoom_eq_ok {view : σ → τ} {put : τ → σ → σ} {x : EStateM ε τ α} {s s' : σ} {a : α} :
    zoom view put x s = .ok a s' ↔ ∃ t, x (view s) = .ok a t ∧ s' = put t s := by
  unfold zoom
  cases x (view s) with
  | ok b t =>
    constructor
    · intro h
      cases h
      exact ⟨t, rfl, rfl⟩
    · rintro ⟨u, h, rfl⟩
      cases h
      rfl
  | error e t => simp

theorem ensures_zoom {view : σ → τ} {put : τ → σ → σ} {x : EStateM ε τ α} {R : σ → σ → Prop}
    (h : ∀ s t, R s (put t s)) : Ensures R (zoom view put x) := by
  intro s
  unfold zoom
  cases x (view s) <;> exact h s _

theorem ensures_zoom_of {view : σ → τ} {put : τ → σ → σ} {x : EStateM ε τ α} {R : σ → σ → Prop}
    {Q : τ → τ → Prop} (hx : Ensures Q x) (h : ∀ s t, Q (view s) t → R s (put t s)) :
    Ensures R (zoom view put x) := by
  intro s
  have hs := hx (view s)
  unfold zoom
  cases hv : x (view s) with
  | ok a t =>
    rw [hv] at hs
    exact h s t hs
  | error e t =>
    rw [hv] at hs
    exact h s t hs

theorem never_zoom {view : σ → τ} {put : τ → σ → σ} {x : EStateM ε τ α} {e : ε}
    (h : Never e x) : Never e (zoom view put x) := by
  intro s s' hs
  unfold zoom at hs
  cases hx : x (view s) with
  | ok a t =>
    rw [hx] at hs
    cases hs
  | error e' t =>
    rw [hx] at hs
    cases hs
    exact h _ _ hx

/-! ## Guarded runs -/

/-- `Steps step P s es s'`: the events `es` lead from `s` to `s'`, each step meeting `P`. -/
inductive Steps (step : σ → τ → Option σ) (P : σ → τ → σ → Prop) : σ → List τ → σ → Prop where
  | nil (s : σ) : Steps step P s [] s
  | cons {s s' s'' : σ} {e : τ} {es : List τ}
      (hstep : step s e = some s') (hguard : P s e s')
      (hrest : Steps step P s' es s'') : Steps step P s (e :: es) s''

namespace Steps

variable {step : σ → τ → Option σ} {P Q : σ → τ → σ → Prop} {s s' s'' : σ} {es fs : List τ}

/-- What holds at the start and is kept by every guarded step holds at the end. -/
theorem invariant {I : σ → Prop} (hkeep : ∀ s e s', I s → step s e = some s' → P s e s' → I s')
    (hrun : Steps step P s es s') (hs : I s) : I s' := by
  induction hrun with
  | nil _ => exact hs
  | cons hstep hguard _ ih => exact ih (hkeep _ _ _ hs hstep hguard)

/-- The same for an invariant that speaks about the events so far. -/
theorem invariant_history {I : List τ → σ → Prop}
    (hkeep : ∀ es s e s', I es s → step s e = some s' → P s e s' → I (es ++ [e]) s')
    (hrun : Steps step P s es s') (hs : I [] s) : I es s' := by
  suffices h : ∀ fs, I fs s → I (fs ++ es) s' from h [] hs
  clear hs
  induction hrun with
  | nil s =>
    intro fs hs
    rwa [List.append_nil]
  | cons hstep hguard _ ih =>
    intro fs hs
    have := ih _ (hkeep fs _ _ _ hs hstep hguard)
    rwa [List.append_assoc, List.singleton_append] at this

theorem mono (h : ∀ s e s', step s e = some s' → P s e s' → Q s e s')
    (hrun : Steps step P s es s') : Steps step Q s es s' := by
  induction hrun with
  | nil s => exact .nil s
  | cons hstep hguard _ ih => exact .cons hstep (h _ _ _ hstep hguard) ih

/-- Runs of one transition function are runs of another that takes the same guarded steps. -/
theorem restep {step' : σ → τ → Option σ}
    (h : ∀ s e s', step s e = some s' → P s e s' → step' s e = some s' ∧ Q s e s')
    (hrun : Steps step P s es s') : Steps step' Q s es s' := by
  induction hrun with
  | nil s => exact .nil s
  | cons hstep hguard _ ih =>
    obtain ⟨hstep', hguard'⟩ := h _ _ _ hstep hguard
    exact .cons hstep' hguard' ih

/-- Two guards that agree where an invariant holds have the same runs. -/
theorem congr {I : σ → Prop} (hiff : ∀ s e s', I s → step s e = some s' → (P s e s' ↔ Q s e s'))
    (hkeep : ∀ s e s', I s → step s e = some s' → P s e s' → I s') (hs : I s) :
    Steps step P s es s' ↔ Steps step Q s es s' := by
  constructor
  · intro hrun
    induction hrun with
    | nil s => exact .nil s
    | cons hstep hguard _ ih =>
      exact .cons hstep ((hiff _ _ _ hs hstep).mp hguard) (ih (hkeep _ _ _ hs hstep hguard))
  · intro hrun
    induction hrun with
    | nil s => exact .nil s
    | cons hstep hguard _ ih =>
      have hguard := (hiff _ _ _ hs hstep).mpr hguard
      exact .cons hstep hguard (ih (hkeep _ _ _ hs hstep hguard))

theorem append (h₁ : Steps step P s es s') (h₂ : Steps step P s' fs s'') :
    Steps step P s (es ++ fs) s'' := by
  induction h₁ with
  | nil _ => exact h₂
  | cons hstep hguard _ ih => exact .cons hstep hguard (ih h₂)

theorem of_append (h : Steps step P s (es ++ fs) s'') :
    ∃ s', Steps step P s es s' ∧ Steps step P s' fs s'' := by
  induction es generalizing s with
  | nil => exact ⟨s, .nil s, h⟩
  | cons e es ih =>
    cases h with
    | cons hstep hguard hrest =>
      obtain ⟨s', h₁, h₂⟩ := ih hrest
      exact ⟨s', .cons hstep hguard h₁, h₂⟩

/-- A bound that each counted event lowers: the goal is reached before more than that many
counted events. -/
theorem reaches {I : σ → Nat → Prop} {goal : σ → Prop} {counts : τ → Bool} {n : Nat}
    (hstep : ∀ s n e s', I s n → step s e = some s' → P s e s' →
      goal s ∨ ∃ m, I s' m ∧ m + (counts e).toNat ≤ n)
    (hzero : ∀ s, I s 0 → goal s) (hrun : Steps step P s es s') (hs : I s n)
    (hn : n ≤ es.countP counts) :
    ∃ fs gs t, es = fs ++ gs ∧ Steps step P s fs t ∧ goal t ∧ fs.countP counts ≤ n := by
  induction hrun generalizing n with
  | nil s =>
    obtain rfl : n = 0 := Nat.le_zero.mp hn
    exact ⟨[], [], s, rfl, .nil s, hzero s hs, Nat.le_refl 0⟩
  | @cons s s' s'' e es hnext hguard hrest ih =>
    obtain hgoal | ⟨m, hm, hle⟩ := hstep s n e s' hs hnext hguard
    · exact ⟨[], e :: es, s, rfl, .nil s, hgoal, Nat.zero_le n⟩
    · have hcount : ∀ fs : List τ, (e :: fs).countP counts = fs.countP counts + (counts e).toNat :=
        fun fs => by cases hc : counts e <;> simp [hc]
      rw [hcount] at hn
      obtain ⟨fs, gs, t, rfl, hfs, hgoal, hbound⟩ := ih hm (by omega)
      refine ⟨e :: fs, gs, t, rfl, .cons hnext hguard hfs, hgoal, ?_⟩
      rw [hcount]
      omega

end Steps

/-- The state in which a program has returned the value `a`. -/
def returned [DecidableEq α] (r : EStateM.Result ε σ α) (a : α) : Option σ :=
  match r with
  | .ok b s => if b = a then some s else none
  | .error _ _ => none

theorem returned_eq_some [DecidableEq α] {r : EStateM.Result ε σ α} {a : α} {s : σ} :
    returned r a = some s ↔ r = .ok a s := by
  cases r with
  | ok b t =>
    by_cases hb : b = a
    · subst hb
      simp [returned]
    · simp [returned, hb]
  | error e t => simp [returned]

/-- The value that a program has returned. -/
def valueOf : EStateM.Result ε σ α → Option α
  | .ok a _ => some a
  | .error _ _ => none

theorem eq_ok_of_valueOf {r : EStateM.Result ε σ α} {a : α} (h : valueOf r = some a) :
    r = .ok a (final r) := by
  cases r with
  | ok b s =>
    obtain rfl := Option.some.inj h
    rfl
  | error e s => cases h

/-- The error that a program has stopped with. -/
def errorOf : EStateM.Result ε σ α → Option ε
  | .ok _ _ => none
  | .error e _ => some e

/-- Run a list of events, stopping at the first one that has no successor. -/
def runEvents (step : σ → τ → Option σ) : σ → List τ → Option σ
  | s, [] => some s
  | s, e :: es => (step s e).bind fun s' => runEvents step s' es

/-- `step`, cut off where a computed guard fails. -/
def checked (step : σ → τ → Option σ) (check : σ → τ → σ → Bool) (s : σ) (e : τ) : Option σ :=
  (step s e).filter (check s e)

/-- A run executed with a computed guard. -/
theorem exists_steps_of_any {step : σ → τ → Option σ} {P : σ → τ → σ → Prop}
    {check : σ → τ → σ → Bool} (hcheck : ∀ s e s', check s e s' = true → P s e s')
    {p : σ → Bool} {s : σ} {es : List τ} (h : (runEvents (checked step check) s es).any p = true) :
    ∃ s', Steps step P s es s' ∧ p s' = true := by
  rw [Option.any_eq_true_iff_get] at h
  obtain ⟨hsome, hp⟩ := h
  have hrun := (Option.some_get hsome).symm
  refine ⟨_, ?_, hp⟩
  clear hp
  generalize (runEvents (checked step check) s es).get hsome = s' at hrun
  clear hsome
  induction es generalizing s with
  | nil =>
    cases hrun
    exact .nil _
  | cons e es ih =>
    obtain ⟨t, hstep, hrest⟩ := Option.bind_eq_some_iff.mp hrun
    obtain ⟨hstep, hguard⟩ := Option.filter_eq_some_iff.mp hstep
    exact .cons hstep (hcheck s e t hguard) (ih hrest)

end StateError
