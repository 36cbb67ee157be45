import Mathlib.Data.List.Basic

/-!
Runs of a machine that takes inputs: what holds of each step, by invariants.
-/

set_option autoImplicit false

namespace Runs

variable {σ ι : Type} (step : σ → ι → Option σ)

/-- The state after the inputs; `none` if one of them does not apply. -/
def run : σ → List ι → Option σ
  | s, [] => some s
  | s, i :: is => (step s i).bind fun s' => run s' is

/-- `P` holds of every step taken on the inputs. -/
def Along (P : σ → ι → σ → Prop) : σ → List ι → Prop
  | _, [] => True
  | s, i :: is => ∀ s', step s i = some s' → P s i s' ∧ Along P s' is

variable {step}

theorem Along.imp {P Q : σ → ι → σ → Prop} (h : ∀ s i s', step s i = some s' → P s i s' → Q s i s')
    {s : σ} {is : List ι} (hp : Along step P s is) : Along step Q s is := by
  induction is generalizing s with
  | nil => trivial
  | cons i is ih =>
    intro s' hs
    obtain ⟨hp,hr⟩ := hp s' hs
    exact ⟨h s i s' hs hp,ih hr⟩

/-- Where steps that satisfy `G` keep the invariant and then satisfy `P`, so do runs. -/
theorem Along.of_inv {G P : σ → ι → σ → Prop} {Inv : σ → Prop}
    (h : ∀ s i s', Inv s → step s i = some s' → G s i s' → Inv s' ∧ P s i s')
    {s : σ} {is : List ι} (hs : Inv s) (hg : Along step G s is) : Along step P s is := by
  induction is generalizing s with
  | nil => trivial
  | cons i is ih =>
    intro s' hstep
    obtain ⟨hgood,hrest⟩ := hg s' hstep
    obtain ⟨hinv,hp⟩ := h s i s' hs hstep hgood
    exact ⟨hp,ih hinv hrest⟩

theorem Along.last {P : σ → ι → σ → Prop} {s s₁ s₂ : σ} {is : List ι} {i : ι}
    (h : Along step P s (is ++ [i])) (hr : run step s is = some s₁) (hs : step s₁ i = some s₂) :
    P s₁ i s₂ := by
  induction is generalizing s with
  | nil =>
    obtain rfl := Option.some.inj hr
    exact (h s₂ hs).1
  | cons j is ih =>
    obtain ⟨s',hstep,hr⟩ := Option.bind_eq_some_iff.mp hr
    exact ih (h s' hstep).2 hr

theorem Along.run_inv {G : σ → ι → σ → Prop} {Inv : σ → Prop}
    (h : ∀ s i s', Inv s → step s i = some s' → G s i s' → Inv s')
    {s s' : σ} {is : List ι} (hs : Inv s) (hg : Along step G s is)
    (hr : run step s is = some s') : Inv s' := by
  induction is generalizing s with
  | nil =>
    obtain rfl := Option.some.inj hr
    exact hs
  | cons i is ih =>
    obtain ⟨s₁,hstep,hr⟩ := Option.bind_eq_some_iff.mp hr
    obtain ⟨hgood,hrest⟩ := hg s₁ hstep
    exact ih (h s i s₁ hs hstep hgood) hrest hr

theorem run_inv {Inv : σ → Prop} (h : ∀ s i s', Inv s → step s i = some s' → Inv s')
    {s s' : σ} {is : List ι} (hs : Inv s) (hr : run step s is = some s') : Inv s' := by
  induction is generalizing s with
  | nil =>
    obtain rfl := Option.some.inj hr
    exact hs
  | cons i is ih =>
    obtain ⟨s₁,hstep,hr⟩ := Option.bind_eq_some_iff.mp hr
    exact ih (h s i s₁ hs hstep) hr

theorem run_append (s : σ) (is js : List ι) :
    run step s (is ++ js) = (run step s is).bind fun s' => run step s' js := by
  induction is generalizing s with
  | nil => rfl
  | cons i is ih =>
    simp only [List.cons_append,run]
    cases step s i with
    | none => rfl
    | some s' => exact ih s'

section Refinement

variable {τ κ : Type} {stepA : τ → κ → Option τ}

def outputs (step : σ → ι → Option σ) (out : σ → ι → List κ) : σ → List ι → List κ
  | _, [] => []
  | s, i :: is => out s i ++ ((step s i).map fun s' => outputs step out s' is).getD []

/-- Where another machine goes along with each step on what the step brings out, it goes along
with a run, up to a point from which there is no return. -/
theorem run_refines {G : σ → ι → σ → Prop} {Inv Gone : σ → Prop} {out : σ → ι → List κ} {abs : σ → τ}
    (hgone : ∀ s i s', Gone s → step s i = some s' → Gone s')
    (h : ∀ s i s', Inv s → step s i = some s' → G s i s' →
      Gone s' ∨ Inv s' ∧ run stepA (abs s) (out s i) = some (abs s'))
    {s s' : σ} {is : List ι} (hs : Inv s) (hg : Along step G s is) (hr : run step s is = some s')
    (hend : ¬ Gone s') :
    Inv s' ∧ run stepA (abs s) (outputs step out s is) = some (abs s') := by
  induction is generalizing s with
  | nil =>
    obtain rfl := Option.some.inj hr
    exact ⟨hs,rfl⟩
  | cons i is ih =>
    obtain ⟨s₁,hstep,hr⟩ := Option.bind_eq_some_iff.mp hr
    obtain ⟨hgood,hrest⟩ := hg s₁ hstep
    rcases h s i s₁ hs hstep hgood with hleft | ⟨hinv,hrun⟩
    · exact absurd (run_inv hgone hleft hr) hend
    · obtain ⟨hinv',hrun'⟩ := ih hinv hrest hr
      refine ⟨hinv',?_⟩
      rw [outputs,hstep,run_append,hrun]
      exact hrun'

end Refinement

end Runs
