/-!
# Reaching states

What can become of something that changes step by step. The steps are data, and a condition says
which steps a state admits. Whatever holds at the beginning and outlives every admitted step holds
of all that is reached, which is `Reaches.invariant`.
-/

namespace TileWorld

/-- The states that come about from `s` by admitted steps. -/
inductive Reaches {σ κ : Type} (step : σ → κ → σ) (admits : σ → κ → Prop) (s : σ) : σ → Prop where
  /-- A state reaches itself. -/
  | refl : Reaches step admits s s
  /-- One more step. -/
  | step {t : σ} (h : Reaches step admits s t) (k : κ) (hk : admits t k) :
    Reaches step admits s (step t k)

namespace Reaches

variable {σ κ : Type} {step : σ → κ → σ} {admits admits' : σ → κ → Prop} {s t u : σ}

/-- What holds at the beginning and outlives every admitted step holds of all that is reached. -/
theorem invariant {P : σ → Prop} (h : Reaches step admits s t) (hs : P s)
    (hstep : ∀ t k, P t → admits t k → P (step t k)) : P t := by
  induction h with
  | refl => exact hs
  | step _ k hk ih => exact hstep _ k ih hk

theorem trans (h : Reaches step admits s t) (h' : Reaches step admits t u) :
    Reaches step admits s u := by
  induction h' with
  | refl => exact h
  | step _ k hk ih => exact ih.step k hk

/-- Whoever admits more reaches more. -/
theorem mono (h : Reaches step admits s t) (hle : ∀ t k, admits t k → admits' t k) :
    Reaches step admits' s t := by
  induction h with
  | refl => exact refl
  | step _ k hk ih => exact ih.step k (hle _ k hk)

/-- A sequence of steps, all of which are admitted everywhere, reaches where it leads. -/
theorem foldl (s : σ) (ks : List κ) (hks : ∀ k ∈ ks, ∀ t, admits t k) :
    Reaches step admits s (ks.foldl step s) := by
  induction ks generalizing s with
  | nil => exact refl
  | cons k ks ih =>
    exact trans (refl.step k (hks k List.mem_cons_self s))
      (ih (step s k) fun k' hk' => hks k' (List.mem_cons_of_mem _ hk'))

end Reaches

end TileWorld
