import OulaServer.Lib.Run

/-!
# Bounded work

The accountant's argument for the runs of `Lib.Run`. A potential of the state pays for the steps: each input pays in its
credit, and takes out its cost (`sum_cost_le`). When the inputs of one kind have no credit and cost at least one, only
so many of them can be taken, and the system comes to rest with them alone (`exists_rest`).
-/

namespace Run

variable {σ α ε : Type*} {step : σ → α → Except ε σ} {I : σ → Prop} {G : σ → α → Prop} {Φ : σ → Nat}

theorem countP_eq_sum (p : α → Bool) (as : List α) : as.countP p = (as.map fun a => (p a).toNat).sum := by
  induction as with
  | nil => rfl
  | cons a as ih =>
      rw [List.countP_cons, List.map_cons, List.sum_cons, ih]
      cases p a <;> simp [Nat.add_comm]

/-- A run costs no more than the potential it starts with and the credit of its inputs. -/
theorem sum_cost_le {cost credit : α → Nat}
    (hstep : ∀ s a t, I s → G s a → step s a = .ok t → I t ∧ Φ t + cost a ≤ Φ s + credit a)
    {s t : σ} (hI : I s) {as : List α} (h : Along step G s as) (ht : as.foldlM step s = .ok t) :
    I t ∧ Φ t + (as.map cost).sum ≤ Φ s + (as.map credit).sum := by
  induction as generalizing s with
  | nil =>
      cases ht
      exact ⟨hI, Nat.le_refl _⟩
  | cons a as ih =>
      rw [List.foldlM_cons] at ht
      cases hs : step s a with
      | error e =>
          rw [hs] at ht
          cases ht
      | ok u =>
          rw [hs] at ht
          obtain ⟨hIu, hle⟩ := hstep s a u hI h.1 hs
          obtain ⟨hIt, hsum⟩ := ih hIu (h.2 u hs) ht
          refine ⟨hIt, ?_⟩
          simp only [List.map_cons, List.sum_cons]
          omega

/-- The inputs of a kind that lower the potential lead to a state in which none of them can be taken. -/
theorem exists_rest {W : α → Prop}
    (hstep : ∀ s a, I s → W a → G s a → ∃ t, step s a = .ok t ∧ I t ∧ Φ t < Φ s) {s : σ} (hI : I s) :
    ∃ as t, (∀ a ∈ as, W a) ∧ Along step G s as ∧ as.foldlM step s = .ok t ∧ I t ∧ ∀ a, W a → ¬ G t a := by
  induction hn : Φ s using Nat.strong_induction_on generalizing s with
  | _ n ih =>
      by_cases hrest : ∀ a, W a → ¬ G s a
      · exact ⟨[], s, nofun, trivial, rfl, hI, hrest⟩
      · push Not at hrest
        obtain ⟨a, hW, hG⟩ := hrest
        obtain ⟨u, hu, hIu, hlt⟩ := hstep s a hI hW hG
        obtain ⟨as, t, hall, halong, ht, hIt, hnone⟩ := ih (Φ u) (hn ▸ hlt) hIu rfl
        refine ⟨a :: as, t, ?_, ⟨hG, fun v hv => ?_⟩, ?_, hIt, hnone⟩
        · exact List.forall_mem_cons.mpr ⟨hW, hall⟩
        · cases hu.symm.trans hv
          exact halong
        · rw [List.foldlM_cons, hu]
          exact ht

end Run
