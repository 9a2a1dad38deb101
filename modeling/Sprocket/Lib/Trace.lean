/-
  File:      Sprocket/Lib/Trace.lean
  Subject:   RUNS OF A LABELLED STEP RELATION: invariants and simulation.

  `Trace step s ls t`: the system goes from `s` to `t` by steps with the labels `ls`. Three rules
  carry a fact about one step to every run: `Trace.invariant` for a predicate of the states,
  `Trace.history` for one of the states and the labels so far, and `Trace.simulate` for a relation
  to a second, more abstract system that answers every step with a step of the same label.
-/
import Mathlib.Logic.Function.Basic

/-- A run, with the labels of its steps in order. -/
inductive Trace {S L : Type} (step : S → L → S → Prop) (s : S) : List L → S → Prop where
  | nil : Trace step s [] s
  | snoc {ls : List L} {t u : S} {l : L} (h : Trace step s ls t) (hs : step t l u) :
      Trace step s (ls ++ [l]) u

namespace Trace

variable {S A L : Type} {step : S → L → S → Prop} {stepA : A → L → A → Prop}

/-- **A predicate every step preserves holds at the end of every run.** -/
theorem invariant {I : S → Prop} (hstep : ∀ s l t, I s → step s l t → I t) {s t : S} {ls : List L}
    (h0 : I s) (h : Trace step s ls t) : I t := by
  induction h with
  | nil => exact h0
  | snoc _ hs ih => exact hstep _ _ _ ih hs

/-- **What every step preserves of the state and the labels so far holds at the end.** -/
theorem history {I : List L → S → Prop}
    (hstep : ∀ ls s l t, I ls s → step s l t → I (ls ++ [l]) t) {s t : S} {ls : List L}
    (h0 : I [] s) (h : Trace step s ls t) : I ls t := by
  induction h with
  | nil => exact h0
  | snoc _ hs ih => exact hstep _ _ _ _ ih hs

/-- **A run of a simulated system is a run of the abstract one, with the same labels.** -/
theorem simulate {R : S → A → Prop}
    (hstep : ∀ s a l t, R s a → step s l t → ∃ b, stepA a l b ∧ R t b)
    {s t : S} {a : A} {ls : List L} (h0 : R s a) (h : Trace step s ls t) :
    ∃ b, Trace stepA a ls b ∧ R t b := by
  induction h with
  | nil => exact ⟨a, .nil, h0⟩
  | snoc _ hs ih =>
    obtain ⟨b, hb, hr⟩ := ih
    obtain ⟨c, hc, hr'⟩ := hstep _ _ _ _ hr hs
    exact ⟨c, hb.snoc hc, hr'⟩

theorem single {s t : S} {l : L} (h : step s l t) : Trace step s [l] t := snoc .nil h

/-- A run of steps that are steps of a second relation is a run of that one. -/
theorem mono {step' : S → L → S → Prop} (hstep : ∀ s l t, step s l t → step' s l t) {s t : S}
    {ls : List L} (h : Trace step s ls t) : Trace step' s ls t := by
  induction h with
  | nil => exact .nil
  | snoc _ hs ih => exact ih.snoc (hstep _ _ _ hs)

/-- A run with one more step in front. -/
theorem cons {s t u : S} {l : L} {ls : List L} (h : Trace step t ls u) (hs : step s l t) :
    Trace step s (l :: ls) u := by
  induction h with
  | nil => exact single hs
  | snoc _ hlast ih => exact ih.snoc hlast

end Trace
