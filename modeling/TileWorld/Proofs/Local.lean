/-!
# Folds that act on one key at a time

A fold over a list of things, each of which has a key of its own and changes only what is found
under that key. Whatever is found in the end has then been changed once, by the thing with its
key, or not at all.
-/

namespace TileWorld

variable {σ α κ ν : Type} [DecidableEq κ] {P : σ → Prop} {f : σ → α → σ} {look : σ → κ → ν}
  {key : α → Option κ} {change : α → ν → ν}

/-- One step of the fold, in a state with the property `P`, changes what is found under the key of
its argument, and keeps the property. -/
def ActsOnKey (P : σ → Prop) (f : σ → α → σ) (look : σ → κ → ν) (key : α → Option κ)
    (change : α → ν → ν) (a : α) : Prop :=
  ∀ s, P s → P (f s a) ∧
    ∀ k, look (f s a) k = if key a = some k then change a (look s k) else look s k

/-- Under a key that nothing in the list has, everything stays as it is. -/
theorem look_foldl_of_forall_ne {l : List α} (hact : ∀ a ∈ l, ActsOnKey P f look key change a)
    {k : κ} (hk : ∀ a ∈ l, key a ≠ some k) {s : σ} (hs : P s) :
    look (l.foldl f s) k = look s k := by
  induction l generalizing s with
  | nil => rfl
  | cons a l ih =>
    obtain ⟨hP, hlook⟩ := hact a List.mem_cons_self s hs
    rw [List.foldl_cons, ih (fun b hb => hact b (List.mem_cons_of_mem _ hb))
      (fun b hb => hk b (List.mem_cons_of_mem _ hb)) hP, hlook, if_neg (hk a List.mem_cons_self)]

/-- Under the key of something in the list, the one change is its own. -/
theorem look_foldl_of_mem {l : List α} (hact : ∀ a ∈ l, ActsOnKey P f look key change a)
    (hdistinct : l.Pairwise fun a b => key a ≠ key b) {a : α} (ha : a ∈ l) {k : κ}
    (hk : key a = some k) {s : σ} (hs : P s) :
    look (l.foldl f s) k = change a (look s k) := by
  induction l generalizing s with
  | nil => exact absurd ha List.not_mem_nil
  | cons b l ih =>
    obtain ⟨hP, hlook⟩ := hact b List.mem_cons_self s hs
    obtain ⟨hb, hl⟩ := List.pairwise_cons.mp hdistinct
    have hrest : ∀ c ∈ l, ActsOnKey P f look key change c :=
      fun c hc => hact c (List.mem_cons_of_mem _ hc)
    rw [List.foldl_cons]
    rcases List.mem_cons.mp ha with rfl | ha
    · rw [look_foldl_of_forall_ne hrest (fun c hc h => hb c hc (hk.trans h.symm)) hP, hlook,
        if_pos hk]
    · rw [ih hrest hl ha hP, hlook, if_neg (fun h => hb a ha (h.trans hk.symm))]

end TileWorld
