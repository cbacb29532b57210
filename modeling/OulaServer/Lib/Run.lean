import Mathlib.Tactic

/-!
# Runs of a fallible step function

A program is given by its step function `step : σ → α → Except ε σ`: in state `s` the input `a` (an
operation that is called, an answer of the environment, the choice of a scheduler) leads to a next
state or to an error. A run from `s` is a list of inputs taken one after the other; it ends early at
an error.

* `Along step G s as`: every input of the run meets `G` in the state it is taken in. With a guard
  for `G` this says that the run is one of the system at all.
* `Holds step E Q s as`: every step of the run satisfies `Q`, and an error that ends it is one that
  `E` allows.
* `Separated step A B s as`: between two steps of the run that satisfy `A` there is a state that
  satisfies `B`.

`holds_of_along` packages the induction behind every invariant, and `holds_iff_along` the one behind
an exact condition: when `Q` holds of each step that meets the condition and fails at the first step
that does not, then `Q` holds throughout a run exactly when every step meets the condition.

`exec_refines` is the rule for a step function with outputs that refines a total specification.
-/

namespace Run

variable {σ τ α β ε : Type*}

/-- Every input of the run meets `G` in the state it is taken in. -/
def Along (step : σ → α → Except ε σ) (G : σ → α → Prop) : σ → List α → Prop
  | _, [] => True
  | s, a :: as => G s a ∧ ∀ t, step s a = .ok t → Along step G t as

/-- Every step of the run satisfies `Q`, and an error that ends it is one that `E` allows. -/
def Holds (step : σ → α → Except ε σ) (E : ε → Prop) (Q : σ → α → σ → Prop) : σ → List α → Prop
  | _, [] => True
  | s, a :: as => (∀ e, step s a = .error e → E e) ∧
      ∀ t, step s a = .ok t → Q s a t ∧ Holds step E Q t as

/-- One step: it satisfies `Q`, or ends in an error that `E` allows. -/
def StepHolds (step : σ → α → Except ε σ) (E : ε → Prop) (Q : σ → α → σ → Prop) (s : σ) (a : α) : Prop :=
  (∀ e, step s a = .error e → E e) ∧ ∀ t, step s a = .ok t → Q s a t

/-- No error is allowed. -/
abbrev noError (_ : ε) : Prop := False

/-- Any error may end the run. -/
abbrev anyError (_ : ε) : Prop := True

variable {step : σ → α → Except ε σ} {E : ε → Prop} {Q : σ → α → σ → Prop}

/-! ### Runs on given inputs can be evaluated -/

theorem along_cons_ok {G : σ → α → Prop} {s t : σ} {a : α} {as : List α} (h : step s a = .ok t) :
    Along step G s (a :: as) ↔ G s a ∧ Along step G t as := by
  simp [Along, h]

theorem along_cons_error {G : σ → α → Prop} {s : σ} {a : α} {as : List α} {e : ε}
    (h : step s a = .error e) : Along step G s (a :: as) ↔ G s a := by
  simp [Along, h]

theorem holds_cons_ok {s t : σ} {a : α} {as : List α} (h : step s a = .ok t) :
    Holds step E Q s (a :: as) ↔ Q s a t ∧ Holds step E Q t as := by
  simp [Holds, h]

theorem holds_cons_error {s : σ} {a : α} {as : List α} {e : ε} (h : step s a = .error e) :
    Holds step E Q s (a :: as) ↔ E e := by
  simp [Holds, h]

instance Along.decidable {G : σ → α → Prop} [∀ s a, Decidable (G s a)] :
    (s : σ) → (as : List α) → Decidable (Along step G s as)
  | _, [] => .isTrue trivial
  | s, a :: as =>
      match h : step s a with
      | .error _ => decidable_of_iff _ (along_cons_error h).symm
      | .ok t =>
          have : Decidable (Along step G t as) := Along.decidable t as
          decidable_of_iff _ (along_cons_ok h).symm

instance Holds.decidable [∀ e, Decidable (E e)] [∀ s a t, Decidable (Q s a t)] :
    (s : σ) → (as : List α) → Decidable (Holds step E Q s as)
  | _, [] => .isTrue trivial
  | s, a :: as =>
      match h : step s a with
      | .error _ => decidable_of_iff _ (holds_cons_error h).symm
      | .ok t =>
          have : Decidable (Holds step E Q t as) := Holds.decidable t as
          decidable_of_iff _ (holds_cons_ok h).symm

/-! ### The rules -/

theorem StepHolds.of_ok {s t : σ} {a : α} (hstep : step s a = .ok t) (hQ : Q s a t) :
    StepHolds step E Q s a := by
  refine ⟨fun e he => ?_, fun t' ht => ?_⟩
  · rw [hstep] at he
    cases he
  · rw [hstep] at ht
    cases ht
    exact hQ

theorem StepHolds.exists_ok {s : σ} {a : α} (h : StepHolds step noError Q s a) :
    ∃ t, step s a = .ok t ∧ Q s a t := by
  cases hstep : step s a with
  | error e => exact (h.1 e hstep).elim
  | ok t => exact ⟨t, rfl, h.2 t hstep⟩

theorem StepHolds.mono {Q' : σ → α → σ → Prop} {s : σ} {a : α} (h : StepHolds step E Q s a)
    (himp : ∀ t, step s a = .ok t → Q s a t → Q' s a t) : StepHolds step E Q' s a :=
  ⟨h.1, fun t ht => himp t ht (h.2 t ht)⟩

theorem along_of_forall {P : α → Prop} {as : List α} (h : ∀ a ∈ as, P a) (s : σ) : Along step (fun _ a => P a) s as := by
  induction as generalizing s with
  | nil => trivial
  | cons a as ih => exact ⟨h a List.mem_cons_self, fun t _ => ih (fun b hb => h b (List.mem_cons_of_mem _ hb)) t⟩

theorem Along.mono {G G' : σ → α → Prop} (himp : ∀ s a, G s a → G' s a) {s : σ} {as : List α}
    (h : Along step G s as) : Along step G' s as := by
  induction as generalizing s with
  | nil => trivial
  | cons a as ih => exact ⟨himp s a h.1, fun t ht => ih (h.2 t ht)⟩

theorem Holds.mono {Q' : σ → α → σ → Prop} (himp : ∀ s a t, Q s a t → Q' s a t) {s : σ} {as : List α}
    (h : Holds step E Q s as) : Holds step E Q' s as := by
  induction as generalizing s with
  | nil => trivial
  | cons a as ih => exact ⟨h.1, fun t ht => ⟨himp s a t (h.2 t ht).1, ih (h.2 t ht).2⟩⟩

/-- The rule for invariants: `I` is kept by every step that meets `G`, and each such step satisfies
`Q`. -/
theorem holds_of_along {I : σ → Prop} {G : σ → α → Prop}
    (hstep : ∀ s a, I s → G s a → StepHolds step E (fun s a t => Q s a t ∧ I t) s a)
    {s : σ} (hI : I s) {as : List α} (h : Along step G s as) : Holds step E Q s as := by
  induction as generalizing s with
  | nil => trivial
  | cons a as ih =>
      obtain ⟨herr, hok⟩ := hstep s a hI h.1
      exact ⟨herr, fun t ht => ⟨(hok t ht).1, ih (hok t ht).2 (h.2 t ht)⟩⟩

/-- The rule for exact conditions: `Q` holds of a run of the system (`P` along it) exactly when every
step meets `G`, provided that from the invariant a step satisfies `Q` if and only if it meets `G`. -/
theorem holds_iff_along {I : σ → Prop} {P G : σ → α → Prop}
    (hgood : ∀ s a, I s → P s a → G s a → StepHolds step E (fun s a t => Q s a t ∧ I t) s a)
    (hbad : ∀ s a, I s → P s a → ¬ G s a → ¬ StepHolds step E Q s a)
    {s : σ} (hI : I s) {as : List α} (hP : Along step P s as) :
    Holds step E Q s as ↔ Along step G s as := by
  induction as generalizing s with
  | nil => exact Iff.rfl
  | cons a as ih =>
      constructor
      · intro h
        have hG : G s a := by
          by_contra hG
          exact hbad s a hI hP.1 hG ⟨h.1, fun t ht => (h.2 t ht).1⟩
        refine ⟨hG, fun t ht => ?_⟩
        have hIt := ((hgood s a hI hP.1 hG).2 t ht).2
        exact (ih hIt (hP.2 t ht)).mp (h.2 t ht).2
      · intro h
        obtain ⟨herr, hok⟩ := hgood s a hI hP.1 h.1
        exact ⟨herr, fun t ht => ⟨(hok t ht).1, (ih (hok t ht).2 (hP.2 t ht)).mpr (h.2 t ht)⟩⟩

/-- Two conditions on the steps of a run of the system (`P` along it) that agree wherever the invariant holds. -/
theorem along_congr {I : σ → Prop} {P G G' : σ → α → Prop}
    (hkeep : ∀ s a t, I s → P s a → step s a = .ok t → I t) (hiff : ∀ s a, I s → P s a → (G s a ↔ G' s a))
    {s : σ} (hI : I s) {as : List α} (hP : Along step P s as) : Along step G s as ↔ Along step G' s as := by
  induction as generalizing s with
  | nil => exact Iff.rfl
  | cons a as ih =>
      refine and_congr (hiff s a hI hP.1) (forall_congr' fun t => forall_congr' fun ht => ?_)
      exact ih (hkeep s a t hI hP.1 ht) (hP.2 t ht)

theorem along_and {G G' : σ → α → Prop} {s : σ} {as : List α} :
    Along step (fun s a => G s a ∧ G' s a) s as ↔ Along step G s as ∧ Along step G' s as := by
  induction as generalizing s with
  | nil => simp [Along]
  | cons a as ih =>
      constructor
      · intro h
        exact ⟨⟨h.1.1, fun t ht => (ih.mp (h.2 t ht)).1⟩, ⟨h.1.2, fun t ht => (ih.mp (h.2 t ht)).2⟩⟩
      · intro h
        exact ⟨⟨h.1.1, h.2.1⟩, fun t ht => ih.mpr ⟨h.1.2 t ht, h.2.2 t ht⟩⟩

/-! ### Parts of a run -/

theorem Along.left {G : σ → α → Prop} {s : σ} {as as' : List α} (h : Along step G s (as ++ as')) :
    Along step G s as := by
  induction as generalizing s with
  | nil => trivial
  | cons a as ih => exact ⟨h.1, fun t ht => ih (h.2 t ht)⟩

theorem Along.of_append {G : σ → α → Prop} {s t : σ} {as as' : List α} (h : Along step G s (as ++ as'))
    (ht : as.foldlM step s = .ok t) : Along step G t as' := by
  induction as generalizing s with
  | nil =>
      cases ht
      exact h
  | cons a as ih =>
      rw [List.foldlM_cons] at ht
      cases hstep : step s a with
      | error e =>
          rw [hstep] at ht
          cases ht
      | ok u =>
          rw [hstep] at ht
          exact ih (h.2 u hstep) ht

/-- The rule for runs that are to succeed: `I` is a relation to what was done so far. -/
theorem exists_foldlM {I : List α → σ → Prop} {G : σ → α → Prop}
    (hstep : ∀ l s a, I l s → G s a → ∃ t, step s a = .ok t ∧ I (l ++ [a]) t) {l : List α} {s : σ} (hI : I l s)
    {as : List α} (h : Along step G s as) : ∃ t, as.foldlM step s = .ok t ∧ I (l ++ as) t := by
  induction as generalizing l s with
  | nil => exact ⟨s, rfl, by rwa [List.append_nil]⟩
  | cons a as ih =>
      obtain ⟨t, ht, hIt⟩ := hstep l s a hI h.1
      obtain ⟨u, hu, hIu⟩ := ih hIt (h.2 t ht)
      refine ⟨u, ?_, ?_⟩
      · rw [List.foldlM_cons, ht]
        exact hu
      · rwa [List.append_cons]

/-! ### What lies between two steps -/

/-- Between two steps of the run that satisfy `A` there is a state that satisfies `B`: one that `as₂`, what
the run does in between, or a part of it reaches. -/
def Separated (step : σ → α → Except ε σ) (A : σ → α → σ → Prop) (B : σ → Prop) (s : σ) (as : List α) : Prop :=
  ∀ (as₁ : List α) (a : α) (as₂ : List α) (a' : α) (as₃ : List α), as = as₁ ++ a :: (as₂ ++ a' :: as₃) →
    ∀ s₁ t₁ s₂ t₂ : σ, as₁.foldlM step s = .ok s₁ → step s₁ a = .ok t₁ → A s₁ a t₁ →
      as₂.foldlM step t₁ = .ok s₂ → step s₂ a' = .ok t₂ → A s₂ a' t₂ →
      ∃ (before after : List α) (u : σ), as₂ = before ++ after ∧ before.foldlM step t₁ = .ok u ∧ B u

theorem Holds.of_append {s t : σ} {as as' : List α} (h : Holds step E Q s (as ++ as')) (ht : as.foldlM step s = .ok t) :
    Holds step E Q t as' := by
  induction as generalizing s with
  | nil =>
      cases ht
      exact h
  | cons a as ih =>
      rw [List.foldlM_cons] at ht
      cases hstep : step s a with
      | error e =>
          rw [hstep] at ht
          cases ht
      | ok u =>
          rw [hstep] at ht
          exact ih (h.2 u hstep).2 ht

/-- The rule for separation: a step that satisfies `A` starts from a state that satisfies `B`. -/
theorem separated_of_holds {A : σ → α → σ → Prop} {B : σ → Prop} (himp : ∀ s a t, Q s a t → A s a t → B s) {s : σ}
    {as : List α} (h : Holds step E Q s as) : Separated step A B s as := by
  rintro as₁ a as₂ a' as₃ rfl s₁ t₁ s₂ t₂ hs₁ ht₁ _ hs₂ ht₂ hA
  have hfrom : Holds step E Q t₁ (as₂ ++ a' :: as₃) := ((h.of_append hs₁).2 t₁ ht₁).2
  have hQ : Q s₂ a' t₂ := ((hfrom.of_append hs₂).2 t₂ ht₂).1
  exact ⟨as₂, [], s₂, (List.append_nil as₂).symm, hs₂, himp s₂ a' t₂ hQ hA⟩

/-! ### Step functions with outputs -/

/-- Run a list of inputs and collect the outputs. -/
def exec (step : σ → α → Except ε (σ × β)) : σ → List α → Except ε (σ × List β)
  | s, [] => .ok (s, [])
  | s, a :: as =>
      match step s a with
      | .error e => .error e
      | .ok (t, b) => (exec step t as).map fun r => (r.1, b :: r.2)

/-- Run a total specification and collect the outputs. -/
def specExec (spec : τ → α → τ × β) : τ → List α → τ × List β
  | x, [] => (x, [])
  | x, a :: as =>
      let r := specExec spec (spec x a).1 as
      (r.1, (spec x a).2 :: r.2)

/-- The state part of a step with outputs. -/
def stateStep (step : σ → α → Except ε (σ × β)) (s : σ) (a : α) : Except ε σ :=
  (step s a).map Prod.fst

/-- The rule for refinement: a step function that answers like the specification and keeps the
relation to it does so over every run that meets the precondition. -/
theorem exec_refines {step : σ → α → Except ε (σ × β)} {spec : τ → α → τ × β} {R : σ → τ → Prop}
    {P : σ → α → Prop}
    (hstep : ∀ s x a, R s x → P s a → ∃ t, step s a = .ok (t, (spec x a).2) ∧ R t (spec x a).1)
    {s : σ} {x : τ} (hR : R s x) {as : List α} (hP : Along (stateStep step) P s as) :
    ∃ t, exec step s as = .ok (t, (specExec spec x as).2) ∧ R t (specExec spec x as).1 := by
  induction as generalizing s x with
  | nil => exact ⟨s, rfl, hR⟩
  | cons a as ih =>
      obtain ⟨t, ht, hRt⟩ := hstep s x a hR hP.1
      have hPt : Along (stateStep step) P t as := hP.2 t (by simp [stateStep, ht, Except.map])
      obtain ⟨u, hu, hRu⟩ := ih hRt hPt
      refine ⟨u, ?_, hRu⟩
      simp only [exec, ht, hu, specExec, Except.map]

end Run
