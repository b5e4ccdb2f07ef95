import Horizon.Lib.StateError
import Mathlib.Logic.Relation

/-!
# Footprints of programs

A footprint lists the kinds of change that a program makes to its state. It is found once for
each program, along the program, and every relation that the kinds of change in it keep is kept
by the program (`Footprint.ensures`). One kind stands for stopping with a distinguished error:
a program without it in its footprint does not stop that way (`Footprint.never`).

Footprints are compared by instance resolution (`Within`), which looks their kinds up one by one.
-/

namespace StateError

/-! ## Comparing lists of kinds -/

section Within

variable {κ : Type} {e a b c d : κ} {S S' T : List κ}

class OneOf (e : κ) (T : List κ) : Prop where
  mem : e ∈ T

instance : OneOf e (e :: T) := ⟨by simp⟩

instance : OneOf e (a :: e :: T) := ⟨by simp⟩

instance : OneOf e (a :: b :: e :: T) := ⟨by simp⟩

instance : OneOf e (a :: b :: c :: e :: T) := ⟨by simp⟩

-- Four at a time: instances must not nest deeply.
instance [h : OneOf e T] : OneOf e (a :: b :: c :: d :: T) := ⟨by simp [h.mem]⟩

class Within (S T : List κ) : Prop where
  mem : ∀ e ∈ S, e ∈ T

instance : Within [] T := ⟨fun _ he => absurd he List.not_mem_nil⟩

instance [h : OneOf e T] [hS : Within S T] : Within (e :: S) T :=
  ⟨List.forall_mem_cons.mpr ⟨h.mem, hS.mem⟩⟩

instance [hS : Within S T] [hS' : Within S' T] : Within (S ++ S') T :=
  ⟨fun e he => (List.mem_append.mp he).elim (hS.mem e) (hS'.mem e)⟩

end Within

/-! ## Footprints -/

/-- Kinds of change to a state, and the error that is a kind of its own. -/
structure Kinds (ε σ κ : Type) where
  change : κ → σ → σ → Prop
  bad : ε
  fault : κ

variable {ε σ τ κ α β : Type} {K : Kinds ε σ κ} {S T : List κ}

/-- States connected by changes of the kinds in `S`. -/
def Makes (K : Kinds ε σ κ) (S : List κ) : σ → σ → Prop :=
  Relation.ReflTransGen fun s s' => ∃ e ∈ S, K.change e s s'

theorem Makes.sub {s s' : σ} (h : Makes K S s s') (hST : ∀ e ∈ S, e ∈ T) : Makes K T s s' :=
  Relation.ReflTransGen.mono (fun _ _ ⟨e, he, hc⟩ => ⟨e, hST e he, hc⟩) _ _ h

instance : Std.Refl (Makes K S) where
  refl _ := .refl

instance : IsTrans σ (Makes K S) where
  trans _ _ _ h₁ h₂ := h₁.trans h₂

/-- Every change that `x` makes is of a kind in `S`. -/
structure Footprint (K : Kinds ε σ κ) (S : List κ) (x : EStateM ε σ α) : Prop where
  makes : Ensures (Makes K S) x
  never : K.fault ∉ S → Never K.bad x

namespace Footprint

variable {x : EStateM ε σ α} {f : α → EStateM ε σ β} {e : ε}

theorem mono (h : Footprint K S x) (hST : ∀ e ∈ S, e ∈ T) : Footprint K T x where
  makes := h.makes.mono fun _ _ hm => hm.sub hST
  never hT := h.never fun hS => hT (hST _ hS)

theorem sub [hST : Within S T] (h : Footprint K S x) : Footprint K T x := h.mono hST.mem

/-- A relation that every kind of change in the footprint keeps. -/
theorem ensures {R : σ → σ → Prop} [Std.Refl R] [IsTrans σ R] (h : Footprint K S x)
    (hR : ∀ e ∈ S, ∀ s s', K.change e s s' → R s s') : Ensures R x := by
  refine h.makes.mono fun s s' hm => ?_
  induction hm with
  | refl => exact Std.Refl.refl s
  | tail _ hc ih =>
    obtain ⟨e, he, hc⟩ := hc
    exact IsTrans.trans _ _ _ ih (hR e he _ _ hc)

theorem pure (a : α) : Footprint K [] (pure a : EStateM ε σ α) := ⟨.pure a, fun _ => .pure a⟩

theorem get : Footprint K [] (get : EStateM ε σ σ) := ⟨.get, fun _ => .get⟩

theorem modify {kind : κ} {g : σ → σ} (h : ∀ s, K.change kind s (g s)) :
    Footprint K [kind] (modify g : EStateM ε σ PUnit) where
  makes := .modify fun s => .single ⟨kind, List.mem_singleton_self kind, h s⟩
  never _ := .modify g

theorem throwBad : Footprint K [K.fault] (throw K.bad : EStateM ε σ α) :=
  ⟨.throw _, fun hS => absurd (List.mem_singleton_self _) hS⟩

theorem throw (h : e ≠ K.bad) : Footprint K [] (throw e : EStateM ε σ α) :=
  ⟨.throw e, fun _ => .throw h⟩

theorem orThrow (h : e ≠ K.bad) (o : Option α) :
    Footprint K [] (orThrow e o : EStateM ε σ α) := ⟨.orThrow e o, fun _ => .orThrow h o⟩

theorem orThrowBad (o : Option α) :
    Footprint K [K.fault] (StateError.orThrow K.bad o : EStateM ε σ α) :=
  ⟨.orThrow _ o, fun hS => absurd (List.mem_singleton_self _) hS⟩

theorem bind (hx : Footprint K S x) (hf : ∀ a, Footprint K T (f a)) :
    Footprint K (S ++ T) (x >>= f) where
  makes := .bind (hx.makes.mono fun _ _ hm => hm.sub fun _ => List.mem_append_left T) fun a =>
    (hf a).makes.mono fun _ _ hm => hm.sub fun _ => List.mem_append_right S
  never hST := .bind (hx.never fun hS => hST (List.mem_append_left T hS)) fun a =>
    (hf a).never fun hT => hST (List.mem_append_right S hT)

theorem ite {c : Prop} [Decidable c] {y z : EStateM ε σ α} (hy : Footprint K S y)
    (hz : Footprint K T z) : Footprint K (S ++ T) (if c then y else z) := by
  split
  · exact hy.mono fun _ => List.mem_append_left T
  · exact hz.mono fun _ => List.mem_append_right S

theorem failIf (h : e ≠ K.bad) (c : Prop) [Decidable c] :
    Footprint K [] (failIf c e : EStateM ε σ Unit) := ite (throw h) (pure ())

theorem failIfBad (c : Prop) [Decidable c] :
    Footprint K [K.fault] (StateError.failIf c K.bad : EStateM ε σ Unit) := ite throwBad (pure ())

theorem runIf {c : Prop} [Decidable c] {x : EStateM ε σ Unit} (hx : Footprint K S x) :
    Footprint K S (runIf c x) := (ite hx (pure ())).mono fun _ h => by rwa [List.append_nil] at h

/-- Running on a component: what is a change of the component is a change of the state. -/
theorem zoom {L : Kinds ε τ κ} {view : σ → τ} {put : τ → σ → σ} {y : EStateM ε τ α}
    (hy : Footprint L S y) (hbad : L.bad = K.bad) (hfault : L.fault = K.fault)
    (hchange : ∀ e s t, L.change e (view s) t → K.change e s (put t s))
    (hview : ∀ s t, view (put t s) = t) (hself : ∀ s, put (view s) s = s)
    (hput : ∀ s t t', put t' (put t s) = put t' s) : Footprint K S (zoom view put y) where
  makes := by
    refine ensures_zoom_of hy.makes fun s t hm => ?_
    induction hm with
    | refl =>
      rw [hself]
      exact Std.Refl.refl s
    | @tail t t' _ hc ih =>
      obtain ⟨e, he, hc⟩ := hc
      refine ih.tail ⟨e, he, ?_⟩
      rw [← hput s t t']
      exact hchange e (put t s) t' (by rwa [hview])
  never hS := hbad ▸ never_zoom (hy.never (hfault ▸ hS))

end Footprint

end StateError
