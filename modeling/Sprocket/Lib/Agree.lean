/-
  File:      Sprocket/Lib/Agree.lean
  Subject:   TWO PROGRAMS THAT AGREE: run from related states they end in the same way and leave
             related states.

  `Agree R m n` compares a program on states `σ` with one on states `τ`. There is one rule for each
  construct of `Prog`, so two programs of the same shape agree as soon as their basic calls do.
  `AgreeAt R x m n` is the same for programs with a local value, when both start with the value `x`.
-/
import Sprocket.Lib.Prog

namespace Prog

variable {σ τ ρ φ ε ε' α β : Type}

/-- **From related states the programs end in the same way**, and the states they leave are
    related. -/
def Agree (R : σ → τ → Prop) (m : Prog σ ε α) (n : Prog τ ε α) : Prop :=
  ∀ s t, R s t → (m s).1 = (n t).1 ∧ R (m s).2 (n t).2

/-- Related states with the same local value. -/
def Both (R : σ → τ → Prop) : σ × ρ → τ × ρ → Prop := fun s t => R s.1 t.1 ∧ s.2 = t.2

def AgreeAt (R : σ → τ → Prop) (x : ρ) (m : Prog (σ × ρ) ε α) (n : Prog (τ × ρ) ε α) : Prop :=
  ∀ s t, R s t → (m (s, x)).1 = (n (t, x)).1 ∧ Both R (m (s, x)).2 (n (t, x)).2

section Rules

variable {R : σ → τ → Prop} {m : Prog σ ε α} {n : Prog τ ε α}

theorem agree_pure (a : α) : Agree R (pure a : Prog σ ε α) (pure a) := fun _ _ h => ⟨rfl, h⟩

theorem agree_fail (e : ε) : Agree R (fail e : Prog σ ε α) (fail e) := fun _ _ h => ⟨rfl, h⟩

theorem agree_crash : Agree R (crash : Prog σ ε α) crash := fun _ _ h => ⟨rfl, h⟩

theorem agree_require (p : Prop) [Decidable p] :
    Agree R (require p : Prog σ ε Unit) (require p) := by
  unfold require
  split
  · exact agree_pure ()
  · exact agree_crash

theorem agree_ofOption (o : Option α) : Agree R (ofOption o : Prog σ ε α) (ofOption o) := by
  cases o with
  | none => exact agree_crash
  | some a => exact agree_pure a

/-- **Sequences agree when their parts do.** -/
theorem Agree.bind {k : α → Prog σ ε β} {l : α → Prog τ ε β} (h : Agree R m n)
    (hk : ∀ a, Agree R (k a) (l a)) : Agree R (m >>= k) (n >>= l) := by
  intro s t hst
  obtain ⟨ho, hR⟩ := h s t hst
  show (andThen m k s).1 = (andThen n l t).1 ∧ R (andThen m k s).2 (andThen n l t).2
  unfold andThen
  rcases hm : m s with ⟨o, s'⟩
  rcases hn : n t with ⟨o', t'⟩
  rw [hm, hn] at ho hR
  cases ho
  cases o with
  | ok a => exact hk a s' t' hR
  | err e => exact ⟨rfl, hR⟩
  | panic => exact ⟨rfl, hR⟩

theorem Agree.ite {p : Prop} [Decidable p] {m' : Prog σ ε α} {n' : Prog τ ε α} (h : Agree R m n)
    (h' : Agree R m' n') : Agree R (if p then m else m') (if p then n else n') := by
  split
  · exact h
  · exact h'

theorem Agree.unwrap (h : Agree R m n) :
    Agree R (unwrap m : Prog σ ε' α) (unwrap n : Prog τ ε' α) := by
  intro s t hst
  obtain ⟨ho, hR⟩ := h s t hst
  unfold Prog.unwrap
  rcases hm : m s with ⟨o, s'⟩
  rcases hn : n t with ⟨o', t'⟩
  rw [hm, hn] at ho hR
  cases ho
  cases o <;> exact ⟨rfl, hR⟩

end Rules

section Local

variable {R : σ → τ → Prop} {x : ρ} {m : Prog (σ × ρ) ε α} {n : Prog (τ × ρ) ε α}

theorem Agree.agreeAt (h : Agree (Both R) m n) (x : ρ) : AgreeAt R x m n :=
  fun s t hst => h (s, x) (t, x) ⟨hst, rfl⟩

theorem AgreeAt.mapErr (g : ε → ε') (h : AgreeAt R x m n) :
    AgreeAt R x (mapErr g m) (mapErr g n) := by
  intro s t hst
  obtain ⟨ho, hR⟩ := h s t hst
  unfold Prog.mapErr
  rcases hm : m (s, x) with ⟨o, s'⟩
  rcases hn : n (t, x) with ⟨o', t'⟩
  rw [hm, hn] at ho hR
  cases ho
  cases o <;> exact ⟨rfl, hR⟩

theorem AgreeAt.withLocal (h : AgreeAt R x m n) :
    Agree R (withLocal x m) (withLocal x n) := by
  intro s t hst
  obtain ⟨ho, hR, hl⟩ := h s t hst
  unfold Prog.withLocal
  rcases hm : m (s, x) with ⟨o, s', y⟩
  rcases hn : n (t, x) with ⟨o', t', z⟩
  rw [hm, hn] at ho hR hl
  cases ho
  cases hl
  cases o <;> exact ⟨rfl, hR⟩

theorem Agree.onFst {m : Prog σ ε α} {n : Prog τ ε α} (h : Agree R m n) :
    Agree (Both R) (onFst m : Prog (σ × ρ) ε α) (onFst n : Prog (τ × ρ) ε α) :=
  fun s t hst => ⟨(h s.1 t.1 hst.1).1, (h s.1 t.1 hst.1).2, hst.2⟩

/-- A part of the local value is handed to the program and put back. -/
theorem agree_onPart {look : ρ → φ} {put : ρ → φ → ρ} {m : Prog (σ × φ) ε α}
    {n : Prog (τ × φ) ε α} (h : ∀ x, AgreeAt R (look x) m n) :
    Agree (Both R) (onPart look put m) (onPart look put n) := by
  rintro ⟨s, x⟩ ⟨t, y⟩ ⟨hst, hxy⟩
  cases hxy
  obtain ⟨ho, hR, hl⟩ := h x s t hst
  exact ⟨ho, hR, congrArg (put x) hl⟩

/-- A change of the local value alone. -/
theorem agree_modifySnd (g : ρ → ρ) :
    Agree (Both R) (modify fun s => (s.1, g s.2) : Prog (σ × ρ) ε Unit)
      (modify fun t => (t.1, g t.2)) :=
  fun _ _ hst => ⟨rfl, hst.1, congrArg g hst.2⟩

/-- The local value is the same on both sides. -/
theorem agree_readSnd :
    Agree (Both R) (fun s => (.ok s.2, s) : Prog (σ × ρ) ε ρ) (fun t => (.ok t.2, t)) :=
  fun _ _ hst => ⟨congrArg Outcome.ok hst.2, hst⟩

end Local

end Prog
