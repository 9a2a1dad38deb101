/-
  File:      Sprocket/Lib/Forecast.lean
  Subject:   A PROGRAM THAT TAKES FROM A STORE, against the same program with its choices foretold.

  The program `m` works on a store `σ` and a state `τ`; what it takes from the store ends up in the
  state. The program `n f` works on the state alone and is told by the forecast `f` what it would
  have been given. `Follows F m n` says that `m` ends as `n f` does, for every forecast that tells
  what the run of `m` has put into the state, unless the store runs out: then `n f` goes on where
  `m` had to stop.

  The forecast is chosen when the run is over. So a result about `n`, for every forecast, is a
  result about `m`, and nothing has to be known about the order in which the store hands things out.
-/
import Sprocket.Lib.Word

namespace Prog

/-- What is kept between calls (`Inv`), how states grow (`Ext`), what it means that a forecast tells
    the way from one state to another (`Says`), that nothing is left (`Spent`), and that a state has
    something another one lacks (`More`). -/
structure Forecast (σ τ φ : Type) where
  Inv : σ → τ → Prop
  Ext : τ → τ → Prop
  Says : φ → τ → τ → Prop
  Spent : σ → Prop
  More : τ → τ → Prop
  refl : ∀ s, Ext s s
  trans : ∀ {s t u}, Ext s t → Ext t u → Ext s u
  says_first : ∀ {f s t u}, Ext s t → Ext t u → Says f s u → Says f s t
  says_rest : ∀ {f s t u}, Ext s t → Ext t u → Says f s u → Says f t u
  more_mono : ∀ {s t u}, More s t → Ext t u → More s u

variable {σ τ φ ε α β : Type}

/-- How a run from the state `s` may end: as the foretold program does, or because the store ran
    out, and then the foretold program gets further. -/
def Forecast.Ended (F : Forecast σ τ φ) (n : φ → Prog τ ε α) (s : τ)
    (r : Outcome ε α × (σ × τ)) : Prop :=
  (∀ f, F.Says f s r.2.2 → n f s = (r.1, r.2.2)) ∨
  (r.1 = .panic ∧ F.Spent r.2.1 ∧ ∀ f, F.Says f s r.2.2 → F.More r.2.2 (n f s).2)

/-- What holds of a run `r` from the state `s`. -/
structure Forecast.Run (F : Forecast σ τ φ) (n : φ → Prog τ ε α) (s : τ)
    (r : Outcome ε α × (σ × τ)) : Prop where
  inv : F.Inv r.2.1 r.2.2
  ext : F.Ext s r.2.2
  ended : F.Ended n s r

/-- **`m` follows `n`**, and both only add to the state. -/
structure Follows (F : Forecast σ τ φ) (m : Prog (σ × τ) ε α) (n : φ → Prog τ ε α) : Prop where
  grows : ∀ f s, F.Ext s (n f s).2
  runs : ∀ a s, F.Inv a s → F.Run n s (m (a, s))

variable {F : Forecast σ τ φ}

/-- A sequence adds to what its first part has left. -/
theorem Forecast.grows_bind {n : Prog τ ε α} {l : α → Prog τ ε β}
    (hl : ∀ a s, F.Ext s (l a s).2) (s : τ) : F.Ext (n s).2 ((n >>= l) s).2 := by
  rcases hn : n s with ⟨o, t⟩
  cases o with
  | ok a =>
    rw [bind_of_ok hn]
    exact hl a t
  | err e =>
    rw [bind_of_err hn]
    exact F.refl t
  | panic =>
    rw [bind_of_panic hn]
    exact F.refl t

theorem Forecast.Run.congr {n n' : φ → Prog τ ε α} {s : τ} {r : Outcome ε α × (σ × τ)}
    (h : F.Run n s r) (hn : ∀ f, n' f s = n f s) : F.Run n' s r := by
  refine ⟨h.inv, h.ext, ?_⟩
  unfold Forecast.Ended
  simp only [hn]
  exact h.ended

/-- A call that leaves the store alone and adds nothing. -/
theorem follows_same {m : Prog (σ × τ) ε α} {n : Prog τ ε α}
    (hm : ∀ a s, m (a, s) = ((n s).1, (a, (n s).2))) (hext : ∀ s, F.Ext s (n s).2)
    (hinv : ∀ a s, F.Inv a s → F.Inv a (n s).2) : Follows F m fun _ => n where
  grows _ := hext
  runs a s h := by
    rw [hm]
    exact ⟨hinv a s h, hext s, Or.inl fun _ _ => rfl⟩

theorem follows_pure (a : α) : Follows F (pure a : Prog (σ × τ) ε α) fun _ => pure a :=
  follows_same (fun _ _ => rfl) F.refl fun _ _ h => h

theorem follows_crash : Follows F (crash : Prog (σ × τ) ε α) fun _ => crash :=
  follows_same (fun _ _ => rfl) F.refl fun _ _ h => h

theorem follows_require (p : Prop) [Decidable p] :
    Follows F (require p : Prog (σ × τ) ε Unit) fun _ => require p := by
  unfold require
  split
  · exact follows_pure ()
  · exact follows_crash

/-- A call on the state alone. -/
theorem follows_onSnd {n : Prog τ ε α} (hext : ∀ s, F.Ext s (n s).2)
    (hinv : ∀ a s, F.Inv a s → F.Inv a (n s).2) : Follows F (onSnd n) fun _ => n :=
  follows_same (fun _ _ => rfl) hext hinv

section Sequence

variable {m : Prog (σ × τ) ε α} {n : φ → Prog τ ε α} {k : α → Prog (σ × τ) ε β}
  {l : α → φ → Prog τ ε β}

/-- The second part ran: what the forecast says about the whole it says about both parts. -/
theorem Forecast.Ended.then {s t : τ} {a : α} {r : Outcome ε β × (σ × τ)}
    (hn : ∀ f, F.Says f s t → n f s = (.ok a, t)) (h : F.Ended (l a) t r) (hst : F.Ext s t)
    (htu : F.Ext t r.2.2) : F.Ended (fun f => n f >>= fun a => l a f) s r := by
  have hrun : ∀ f, F.Says f s r.2.2 → (n f >>= fun a => l a f) s = l a f t := fun f hf =>
    bind_of_ok (hn f (F.says_first hst htu hf))
  rcases h with h | ⟨hp, hspent, h⟩
  · exact Or.inl fun f hf => (hrun f hf).trans (h f (F.says_rest hst htu hf))
  · refine Or.inr ⟨hp, hspent, fun f hf => ?_⟩
    show F.More r.2.2 ((n f >>= fun a => l a f) s).2
    rw [hrun f hf]
    exact h f (F.says_rest hst htu hf)

/-- **Sequences follow when their parts do.** -/
theorem Follows.bind (hm : Follows F m n) (hk : ∀ a, Follows F (k a) (l a)) :
    Follows F (m >>= k) fun f => n f >>= fun a => l a f := by
  have hgrow : ∀ f s, F.Ext (n f s).2 ((n f >>= fun a => l a f) s).2 := fun f =>
    Forecast.grows_bind fun a => (hk a).grows f
  refine ⟨fun f s => F.trans (hm.grows f s) (hgrow f s), fun a s h => ?_⟩
  obtain ⟨hinv, hext, hend⟩ := hm.runs a s h
  rcases hr : m (a, s) with ⟨o, a', t⟩
  rw [hr] at hinv hext hend
  -- an error or a panic of the first part is one of the whole
  cases o with
  | ok x =>
    obtain ⟨hinv', hext', hend'⟩ := (hk x).runs a' t hinv
    rw [bind_of_ok hr]
    refine ⟨hinv', F.trans hext hext', ?_⟩
    rcases hend with hn | ⟨hp, _⟩
    · exact hend'.then hn hext hext'
    · cases hp
  | err e =>
    rw [bind_of_err hr]
    refine ⟨hinv, hext, ?_⟩
    rcases hend with hn | ⟨hp, _⟩
    · exact Or.inl fun f hf => bind_of_err (hn f hf)
    · cases hp
  | panic =>
    rw [bind_of_panic hr]
    refine ⟨hinv, hext, ?_⟩
    rcases hend with hn | ⟨_, hspent, hmore⟩
    · exact Or.inl fun f hf => bind_of_panic (hn f hf)
    · exact Or.inr ⟨rfl, hspent, fun f hf => F.more_mono (hmore f hf) (hgrow f s)⟩

theorem Follows.ite {p : Prop} [Decidable p] {m' : Prog (σ × τ) ε α} {n' : φ → Prog τ ε α}
    (h : Follows F m n) (h' : Follows F m' n') :
    Follows F (if p then m else m') fun f => if p then n f else n' f := by
  by_cases hp : p
  · simp only [if_pos hp]
    exact h
  · simp only [if_neg hp]
    exact h'

theorem follows_checkedAdd (a b : Nat) :
    Follows F (checkedAdd a b : Prog (σ × τ) ε Nat) fun _ => checkedAdd a b :=
  (follows_pure _).ite follows_crash

theorem follows_checkedSub (a b : Nat) :
    Follows F (checkedSub a b : Prog (σ × τ) ε Nat) fun _ => checkedSub a b :=
  (follows_pure _).ite follows_crash

end Sequence

end Prog
