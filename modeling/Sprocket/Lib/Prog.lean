/-
  File:      Sprocket/Lib/Prog.lean
  Subject:   CODE THAT RETURNS, FAILS OR PANICS, and what holds when it ends.

  A piece of imperative code over a state `σ` is a function from the state to an outcome and the
  state it leaves behind (`Prog`). An error and a panic keep the state reached so far: a caller
  that handles an error sees every write made before it.

  * `Outcome`, `Prog` and the combinators -- sequencing stops at the first error or panic
    (the `?` operator), `attempt` catches an error but never a panic, `onFst` runs code on one
    half of a state, `withLocal` gives code a local variable and hands it back on success;
  * `Ends view m v Q` -- the weakest precondition of `m`, read through a `view` of the state:
    from EVERY state that looks like `v`, `m` ends with an outcome and a view that meet `Q`.
    With a view that forgets the part of the state nobody reads (registers of a device, say) the
    code is reasoned about as a function of what it can observe;
  * `Gives view m v o w` -- the deterministic case: the outcome is `o` and the view is `w`;
  * `Keeps view m P` -- `P` survives the code, however it ends.
-/
import Mathlib.Logic.Function.Basic
import Mathlib.Tactic.Common

/-- How a run of a piece of code ends. -/
inductive Outcome (ε α : Type) where
  | ok (a : α) : Outcome ε α
  | err (e : ε) : Outcome ε α
  | panic : Outcome ε α
  deriving DecidableEq, Repr

/-- Code over a state `σ` with errors `ε`: the outcome and the state left behind. -/
def Prog (σ ε α : Type) : Type := σ → Outcome ε α × σ

namespace Prog

variable {σ τ υ φ ε ε' α β : Type}

/-! ## 1. Combinators -/

/-- Sequencing: an error or a panic ends the code, with the state reached so far. -/
def andThen (m : Prog σ ε α) (k : α → Prog σ ε β) : Prog σ ε β := fun s =>
  match m s with
  | (.ok a, s') => k a s'
  | (.err e, s') => (.err e, s')
  | (.panic, s') => (.panic, s')

instance : Monad (Prog σ ε) where
  pure a := fun s => (.ok a, s)
  bind := andThen

/-- Code that returned a value did so at each of its steps. -/
theorem bind_eq_ok {m : Prog σ ε α} {k : α → Prog σ ε β} {s s'' : σ} {b : β}
    (h : (m >>= k) s = (.ok b, s'')) : ∃ a s', m s = (.ok a, s') ∧ k a s' = (.ok b, s'') := by
  have hrun : andThen m k s = (.ok b, s'') := h
  unfold andThen at hrun
  cases hm : m s with
  | mk o s' =>
    rw [hm] at hrun
    cases o with
    | ok a => exact ⟨a, s', rfl, hrun⟩
    | err e => cases hrun
    | panic => cases hrun

theorem bind_of_ok {m : Prog σ ε α} {k : α → Prog σ ε β} {s s' : σ} {a : α}
    (h : m s = (.ok a, s')) : (m >>= k) s = k a s' := by
  show andThen m k s = k a s'
  unfold andThen
  rw [h]

theorem bind_of_err {m : Prog σ ε α} {k : α → Prog σ ε β} {s s' : σ} {e : ε}
    (h : m s = (.err e, s')) : (m >>= k) s = (.err e, s') := by
  show andThen m k s = (.err e, s')
  unfold andThen
  rw [h]

theorem bind_of_panic {m : Prog σ ε α} {k : α → Prog σ ε β} {s s' : σ}
    (h : m s = (.panic, s')) : (m >>= k) s = (.panic, s') := by
  show andThen m k s = (.panic, s')
  unfold andThen
  rw [h]

/-- Return an error. -/
def fail (e : ε) : Prog σ ε α := fun s => (.err e, s)

/-- Panic. -/
def crash : Prog σ ε α := fun s => (.panic, s)

/-- An assertion: panic unless `p` holds. -/
def require (p : Prop) [Decidable p] : Prog σ ε Unit := if p then pure () else crash

/-- The value of an index or a conversion that panics where it is undefined. -/
def ofOption : Option α → Prog σ ε α
  | some a => pure a
  | none => crash

/-- The state itself. -/
def get : Prog σ ε σ := fun s => (.ok s, s)

/-- Overwrite the state. -/
def modify (f : σ → σ) : Prog σ ε Unit := fun s => (.ok (), f s)

/-- Convert the error type. -/
def mapErr (g : ε → ε') (m : Prog σ ε α) : Prog σ ε' α := fun s =>
  match m s with
  | (.ok a, s') => (.ok a, s')
  | (.err e, s') => (.err (g e), s')
  | (.panic, s') => (.panic, s')

/-- Hand an error to the caller as a value. A panic is not caught. -/
def attempt (m : Prog σ ε α) : Prog σ ε (Except ε α) := fun s =>
  match m s with
  | (.ok a, s') => (.ok (.ok a), s')
  | (.err e, s') => (.ok (.error e), s')
  | (.panic, s') => (.panic, s')

/-- Run code on the first half of a state. -/
def onFst (m : Prog σ ε α) : Prog (σ × τ) ε α := fun s => ((m s.1).1, ((m s.1).2, s.2))

/-- Run code on the second half of a state. -/
def onSnd (m : Prog τ ε α) : Prog (σ × τ) ε α := fun s => ((m s.2).1, (s.1, (m s.2).2))

/-- Run code on a part of a state: `look` reads the part, `put` writes it back. -/
def zoom (look : σ → τ) (put : σ → τ → σ) (m : Prog τ ε α) : Prog σ ε α := fun s =>
  ((m (look s)).1, put s (m (look s)).2)

/-- Run code with a local variable: its last value comes back with the result, and is dropped
    with an error or a panic. -/
def withLocal (x : τ) (m : Prog (σ × τ) ε α) : Prog σ ε (α × τ) := fun s =>
  match m (s, x) with
  | (.ok a, s') => (.ok (a, s'.2), s'.1)
  | (.err e, s') => (.err e, s'.1)
  | (.panic, s') => (.panic, s'.1)

/-- Run code on a part of the second half of a state: `look` reads the part, `put` writes it
    back -- also when the code fails or panics. -/
def onPart (look : τ → φ) (put : τ → φ → τ) (m : Prog (σ × φ) ε α) : Prog (σ × τ) ε α := fun s =>
  ((m (s.1, look s.2)).1,
    ((m (s.1, look s.2)).2.1, put s.2 (m (s.1, look s.2)).2.2))

/-- An error becomes a panic (`unwrap`). -/
def unwrap (m : Prog σ ε α) : Prog σ ε' α := fun s =>
  match m s with
  | (.ok a, s') => (.ok a, s')
  | (.err _, s') => (.panic, s')
  | (.panic, s') => (.panic, s')

/-! ## 2. What holds when the code ends -/

/-- **The weakest precondition, read through a view**: from every state that looks like `v` the
    code ends with an outcome and a view that meet `Q`. -/
def Ends (view : σ → υ) (m : Prog σ ε α) (v : υ) (Q : Outcome ε α → υ → Prop) : Prop :=
  ∀ s, view s = v → Q (m s).1 (view (m s).2)

/-- The code ends with outcome `o` and view `w`. -/
def Gives (view : σ → υ) (m : Prog σ ε α) (v : υ) (o : Outcome ε α) (w : υ) : Prop :=
  Ends view m v fun o' w' => o' = o ∧ w' = w

/-- What the rest `k` of a sequence has to meet after its first part ended. -/
def After (view : σ → υ) (k : α → Prog σ ε β) (Q : Outcome ε β → υ → Prop) :
    Outcome ε α → υ → Prop
  | .ok a, w => Ends view (k a) w Q
  | .err e, w => Q (.err e) w
  | .panic, w => Q .panic w

section Rules

variable {view : σ → υ} {v w u : υ} {Q R : Outcome ε α → υ → Prop}

theorem ends_mono {m : Prog σ ε α} (h : Ends view m v Q) (hQ : ∀ o w, Q o w → R o w) :
    Ends view m v R :=
  fun s hs => hQ _ _ (h s hs)

/-- What holds of a view holds of anything that can be read off it. -/
theorem ends_coarsen {m : Prog σ ε α} (fine : σ → φ) (proj : φ → υ)
    (hview : ∀ s, view s = proj (fine s))
    (h : ∀ u, proj u = v → Ends fine m u fun o w => Q o (proj w)) : Ends view m v Q := by
  intro s hs
  rw [hview] at hs ⊢
  exact h (fine s) hs s rfl

theorem ends_pure {a : α} (h : Q (.ok a) v) : Ends view (pure a) v Q := by
  intro s hs
  subst hs
  exact h

theorem ends_fail {e : ε} (h : Q (.err e) v) : Ends view (fail e) v Q := by
  intro s hs
  subst hs
  exact h

theorem ends_crash (h : Q .panic v) : Ends view crash v Q := by
  intro s hs
  subst hs
  exact h

theorem ends_bind {m : Prog σ ε α} {k : α → Prog σ ε β} {Q : Outcome ε β → υ → Prop}
    (h : Ends view m v (After view k Q)) : Ends view (m >>= k) v Q := by
  intro s hs
  have h1 := h s hs
  show Q (andThen m k s).1 (view (andThen m k s).2)
  unfold andThen
  rcases hm : m s with ⟨o, s'⟩
  rw [hm] at h1
  cases o with
  | ok a => exact h1 s' rfl
  | err e => exact h1
  | panic => exact h1

/-- Sequencing after a part with a known specification `P`. -/
theorem ends_bind_of {m : Prog σ ε α} {k : α → Prog σ ε β} {P : Outcome ε α → υ → Prop}
    {Q : Outcome ε β → υ → Prop} (hm : Ends view m v P)
    (hok : ∀ a w, P (.ok a) w → Ends view (k a) w Q)
    (herr : ∀ e w, P (.err e) w → Q (.err e) w) (hpanic : ∀ w, P .panic w → Q .panic w) :
    Ends view (m >>= k) v Q := by
  refine ends_bind (ends_mono hm fun o w ho => ?_)
  cases o with
  | ok a => exact hok a w ho
  | err e => exact herr e w ho
  | panic => exact hpanic w ho

/-- Sequencing after a part with a known result. -/
theorem Gives.then {m : Prog σ ε α} {k : α → Prog σ ε β} {a : α} {Q : Outcome ε β → υ → Prop}
    (hm : Gives view m v (.ok a) w) (hk : Ends view (k a) w Q) : Ends view (m >>= k) v Q := by
  refine ends_bind (ends_mono hm ?_)
  rintro o w' ⟨rfl, rfl⟩
  exact hk

/-- An error ends a sequence. -/
theorem Gives.then_err {m : Prog σ ε α} {k : α → Prog σ ε β} {e : ε}
    (hm : Gives view m v (.err e) w) : Gives view (m >>= k) v (.err e) w := by
  refine ends_bind (ends_mono hm ?_)
  rintro o w' ⟨rfl, rfl⟩
  exact ⟨rfl, rfl⟩

/-- A panic ends a sequence. -/
theorem Gives.then_panic {m : Prog σ ε α} {k : α → Prog σ ε β}
    (hm : Gives view m v .panic w) : Gives view (m >>= k) v .panic w := by
  refine ends_bind (ends_mono hm ?_)
  rintro o w' ⟨rfl, rfl⟩
  exact ⟨rfl, rfl⟩

theorem gives_pure (a : α) : Gives view (pure a : Prog σ ε α) v (.ok a) v :=
  ends_pure ⟨rfl, rfl⟩

theorem gives_fail (e : ε) : Gives view (fail e : Prog σ ε α) v (.err e) v :=
  ends_fail ⟨rfl, rfl⟩

theorem gives_crash : Gives view (crash : Prog σ ε α) v .panic v :=
  ends_crash ⟨rfl, rfl⟩

theorem Gives.ends {m : Prog σ ε α} {o : Outcome ε α} (h : Gives view m v o w) (hQ : Q o w) :
    Ends view m v Q := by
  refine ends_mono h ?_
  rintro o' w' ⟨rfl, rfl⟩
  exact hQ

theorem ends_require {p : Prop} [Decidable p] {Q : Outcome ε Unit → υ → Prop}
    (hpos : p → Q (.ok ()) v) (hneg : ¬ p → Q .panic v) : Ends view (require p) v Q := by
  unfold require
  split
  · exact ends_pure (hpos ‹_›)
  · exact ends_crash (hneg ‹_›)

theorem gives_require {p : Prop} [Decidable p] (h : p) :
    Gives view (require p : Prog σ ε Unit) v (.ok ()) v :=
  ends_require (fun _ => ⟨rfl, rfl⟩) (fun hn => absurd h hn)

theorem gives_require_not {p : Prop} [Decidable p] (h : ¬ p) :
    Gives view (require p : Prog σ ε Unit) v .panic v :=
  ends_require (fun hp => absurd hp h) (fun _ => ⟨rfl, rfl⟩)

/-- Where the whole state is seen, this is what the program does. -/
theorem gives_id_iff {m : Prog σ ε α} {s t : σ} {o : Outcome ε α} :
    Gives id m s o t ↔ m s = (o, t) :=
  ⟨fun h => Prod.ext_iff.mpr (h s rfl), fun h r hr => by
    cases hr
    exact Prod.ext_iff.mp h⟩

/-- Seen as it is, the state is what `get` returns. -/
theorem gives_get {s : σ} : Gives id (get : Prog σ ε σ) s (.ok s) s := by
  rintro t rfl
  exact ⟨rfl, rfl⟩

theorem gives_modify (f : σ → σ) {s : σ} :
    Gives id (modify f : Prog σ ε Unit) s (.ok ()) (f s) := by
  rintro t rfl
  exact ⟨rfl, rfl⟩

/-- What follows a `get` may use any state that looks like the view. -/
theorem ends_get {k : σ → Prog σ ε α} (h : ∀ s, view s = v → Ends view (k s) v Q) :
    Ends view (get >>= k) v Q :=
  fun s hs => h s hs s hs

theorem gives_modify_view {f : σ → σ} (h : ∀ s, view s = v → view (f s) = w) :
    Gives view (modify f : Prog σ ε Unit) v (.ok ()) w :=
  fun s hs => ⟨rfl, h s hs⟩

theorem gives_ofOption {o : Option α} {a : α} (h : o = some a) :
    Gives view (ofOption o : Prog σ ε α) v (.ok a) v := by
  rw [h]
  exact gives_pure a

end Rules

/-! ## 3. Code that keeps a property, however it ends -/

/-- From a view that meets `P` the code ends in a view that meets `P` -- also with an error or a
    panic. -/
def Keeps (view : σ → υ) (m : Prog σ ε α) (P : υ → Prop) : Prop :=
  ∀ v, P v → Ends view m v fun _ w => P w

section Keeps

variable {view : σ → υ} {P : υ → Prop}

theorem keeps_pure (a : α) : Keeps view (pure a : Prog σ ε α) P := fun _ h => ends_pure h

theorem keeps_fail (e : ε) : Keeps view (fail e : Prog σ ε α) P := fun _ h => ends_fail h

theorem keeps_crash : Keeps view (crash : Prog σ ε α) P := fun _ h => ends_crash h

theorem keeps_require (p : Prop) [Decidable p] : Keeps view (require p : Prog σ ε Unit) P :=
  fun _ h => ends_require (fun _ => h) (fun _ => h)

theorem keeps_ofOption (o : Option α) : Keeps view (ofOption o : Prog σ ε α) P := by
  cases o with
  | none => exact keeps_crash
  | some a => exact keeps_pure a

theorem keeps_bind {m : Prog σ ε α} {k : α → Prog σ ε β} (hm : Keeps view m P)
    (hk : ∀ a, Keeps view (k a) P) : Keeps view (m >>= k) P := fun v hv =>
  ends_bind_of (hm v hv) (fun a w hw => hk a w hw) (fun _ _ hw => hw) (fun _ hw => hw)

theorem keeps_ite {p : Prop} [Decidable p] {m n : Prog σ ε α} (hm : Keeps view m P)
    (hn : Keeps view n P) : Keeps view (if p then m else n) P := by
  split
  · exact hm
  · exact hn

/-- From a view that meets `P` the code ends in a view that meets `P` if it ends with an error. -/
def KeepsOnErr (view : σ → υ) (m : Prog σ ε α) (P : υ → Prop) : Prop :=
  ∀ v, P v → Ends view m v fun o w => ∀ e, o = .err e → P w

theorem Keeps.onErr {m : Prog σ ε α} (h : Keeps view m P) : KeepsOnErr view m P := fun v hv =>
  ends_mono (h v hv) fun _ _ hw _ _ => hw

theorem keepsOnErr_bind {m : Prog σ ε α} {k : α → Prog σ ε β} (hm : Keeps view m P)
    (hk : ∀ a, KeepsOnErr view (k a) P) : KeepsOnErr view (m >>= k) P := fun v hv =>
  ends_bind_of (hm v hv) (fun a w hw => hk a w hw) (fun _ _ hw _ _ => hw)
    fun _ _ _ he => by cases he

/-- A result computed at the end cannot fail. -/
theorem keepsOnErr_then_pure {m : Prog σ ε α} (b : β) (hm : KeepsOnErr view m P) :
    KeepsOnErr view (m >>= fun _ => pure b) P := fun v hv =>
  ends_bind_of (hm v hv) (fun _ _ _ => ends_pure fun _ he => by cases he)
    (fun e _ hw _ _ => hw e rfl) fun _ _ _ he => by cases he

theorem keepsOnErr_modify (f : σ → σ) : KeepsOnErr view (modify f : Prog σ ε Unit) P :=
  fun _ _ _ _ _ he => by cases he

theorem keepsOnErr_ite {p : Prop} [Decidable p] {m n : Prog σ ε α} (hm : KeepsOnErr view m P)
    (hn : KeepsOnErr view n P) : KeepsOnErr view (if p then m else n) P := by
  split
  · exact hm
  · exact hn

end Keeps

/-! ## 4. Rules for the combinators that change the state -/

section Lifting

variable {view : σ → υ} {v w : υ}

/-- A view of the first half of a state, beside the second half itself. -/
def onView (view : σ → υ) : σ × τ → υ × τ := fun s => (view s.1, s.2)

/-- From a view whose first half is known by an equation. -/
theorem ends_at {look : σ → υ × τ} {m : Prog σ ε α} {u : υ × τ} {Q : Outcome ε α → υ × τ → Prop}
    (hu : u.1 = v) (h : Ends look m (v, u.2) Q) : Ends look m u Q := by
  subst hu
  exact h

/-- Code on the first half of a state leaves the second half alone. -/
theorem ends_onFst {m : Prog σ ε α} {x : τ} {Q : Outcome ε α → υ × τ → Prop}
    (h : Ends view m v fun o w => Q o (w, x)) :
    Ends (onView view) (onFst m) (v, x) Q := by
  rintro ⟨s, y⟩ hs
  obtain ⟨h1, rfl⟩ := Prod.mk.inj hs
  exact h s h1

theorem Gives.onFst {m : Prog σ ε α} {x : τ} {o : Outcome ε α} (h : Gives view m v o w) :
    Gives (onView view) (onFst m) (v, x) o (w, x) :=
  ends_onFst (ends_mono h fun _ _ ⟨h1, h2⟩ => ⟨h1, by rw [h2]⟩)

/-- Code on a part of a state, read through a view of the part. -/
theorem Gives.zoom {φ : Type} {look : σ → τ} {put : σ → τ → σ} {part : τ → φ} {x y : φ}
    {m : Prog τ ε α} {o : Outcome ε α} (h : Gives part m x o y)
    (hlook : ∀ s, view s = v → part (look s) = x)
    (hput : ∀ s t, view s = v → part t = y → view (put s t) = w) :
    Gives view (Prog.zoom look put m) v o w := by
  intro s hs
  obtain ⟨ho, hy⟩ := h (look s) (hlook s hs)
  exact ⟨ho, hput s _ hs hy⟩

/-- Code that changes nothing its view shows changes nothing of a larger state either. -/
theorem Keeps.onFst_same {m : Prog σ ε α} {x : τ} (h : Keeps view m (· = v)) :
    Ends (onView view) (Prog.onFst m) (v, x) fun _ w => w = (v, x) :=
  ends_onFst (ends_mono (h v rfl) fun _ _ hw => by rw [hw])

/-- What the caller of `withLocal` sees of the code's outcome and view. -/
def LocalPost (Q : Outcome ε (α × τ) → υ → Prop) : Outcome ε α → υ × τ → Prop
  | .ok a, w => Q (.ok (a, w.2)) w.1
  | .err e, w => Q (.err e) w.1
  | .panic, w => Q .panic w.1

theorem ends_withLocal {m : Prog (σ × τ) ε α} {x : τ} {Q : Outcome ε (α × τ) → υ → Prop}
    (h : Ends (onView view) m (v, x) (LocalPost Q)) :
    Ends view (withLocal x m) v Q := by
  intro s hs
  have h1 := h (s, x) (Prod.ext hs rfl)
  unfold withLocal
  rcases hm : m (s, x) with ⟨o, s'⟩
  rw [hm] at h1
  cases o <;> exact h1

theorem Gives.withLocal_ok {m : Prog (σ × τ) ε α} {x y : τ} {a : α}
    (h : Gives (onView view) m (v, x) (.ok a) (w, y)) :
    Gives view (withLocal x m) v (.ok (a, y)) w := by
  refine ends_withLocal (ends_mono h ?_)
  rintro o u ⟨rfl, rfl⟩
  exact ⟨rfl, rfl⟩

theorem Gives.withLocal_panic {m : Prog (σ × τ) ε α} {x : τ} {u : υ × τ}
    (h : Gives (onView view) m (v, x) .panic u) : Gives view (withLocal x m) v .panic u.1 := by
  refine ends_withLocal (ends_mono h ?_)
  rintro o w ⟨rfl, rfl⟩
  exact ⟨rfl, rfl⟩

theorem ends_onPart {look : τ → φ} {put : τ → φ → τ} {m : Prog (σ × φ) ε α} {x : τ}
    {Q : Outcome ε α → υ × τ → Prop}
    (h : Ends (onView view) m (v, look x) fun o w => Q o (w.1, put x w.2)) :
    Ends (onView view) (onPart look put m) (v, x) Q := by
  rintro ⟨s, y⟩ hs
  obtain ⟨h1, rfl⟩ := Prod.mk.inj hs
  exact h (s, look y) (Prod.ext h1 rfl)

/-- What the caller of `attempt` sees. -/
def AttemptPost (Q : Outcome ε (Except ε α) → υ → Prop) : Outcome ε α → υ → Prop
  | .ok a, w => Q (.ok (.ok a)) w
  | .err e, w => Q (.ok (.error e)) w
  | .panic, w => Q .panic w

theorem ends_attempt {m : Prog σ ε α} {Q : Outcome ε (Except ε α) → υ → Prop}
    (h : Ends view m v (AttemptPost Q)) : Ends view (attempt m) v Q := by
  intro s hs
  have h1 := h s hs
  unfold attempt
  rcases hm : m s with ⟨o, s'⟩
  rw [hm] at h1
  cases o <;> exact h1

theorem Gives.attempt_ok {m : Prog σ ε α} {a : α} (h : Gives view m v (.ok a) w) :
    Gives view (attempt m) v (.ok (.ok a)) w := by
  refine ends_attempt (ends_mono h ?_)
  rintro o u ⟨rfl, rfl⟩
  exact ⟨rfl, rfl⟩

theorem Gives.attempt_err {m : Prog σ ε α} {e : ε} (h : Gives view m v (.err e) w) :
    Gives view (attempt m) v (.ok (.error e)) w := by
  refine ends_attempt (ends_mono h ?_)
  rintro o u ⟨rfl, rfl⟩
  exact ⟨rfl, rfl⟩

theorem keeps_attempt {m : Prog σ ε α} {P : υ → Prop} (h : Keeps view m P) :
    Keeps view (attempt m) P := by
  intro v hv
  refine ends_attempt (ends_mono (h v hv) fun o w hw => ?_)
  cases o <;> exact hw

/-- What the caller of `mapErr` sees. -/
def MapErrPost (g : ε → ε') (Q : Outcome ε' α → υ → Prop) : Outcome ε α → υ → Prop
  | .ok a, w => Q (.ok a) w
  | .err e, w => Q (.err (g e)) w
  | .panic, w => Q .panic w

theorem ends_mapErr {m : Prog σ ε α} {g : ε → ε'} {Q : Outcome ε' α → υ → Prop}
    (h : Ends view m v (MapErrPost g Q)) : Ends view (mapErr g m) v Q := by
  intro s hs
  have h1 := h s hs
  unfold mapErr
  rcases hm : m s with ⟨o, s'⟩
  rw [hm] at h1
  cases o <;> exact h1

/-- What the caller of `unwrap` sees. -/
def UnwrapPost (Q : Outcome ε' α → υ → Prop) : Outcome ε α → υ → Prop
  | .ok a, w => Q (.ok a) w
  | .err _, w => Q .panic w
  | .panic, w => Q .panic w

theorem ends_unwrap {m : Prog σ ε α} {Q : Outcome ε' α → υ → Prop}
    (h : Ends view m v (UnwrapPost Q)) : Ends view (unwrap m) v Q := by
  intro s hs
  have h1 := h s hs
  unfold unwrap
  rcases hm : m s with ⟨o, s'⟩
  rw [hm] at h1
  cases o <;> exact h1

theorem Gives.unwrap_ok {m : Prog σ ε α} {a : α} (h : Gives view m v (.ok a) w) :
    Gives view (unwrap m : Prog σ ε' α) v (.ok a) w := by
  refine ends_unwrap (ends_mono h ?_)
  rintro o u ⟨rfl, rfl⟩
  exact ⟨rfl, rfl⟩

theorem Gives.unwrap_panic {m : Prog σ ε α} (h : Gives view m v .panic w) :
    Gives view (unwrap m : Prog σ ε' α) v .panic w := by
  refine ends_unwrap (ends_mono h ?_)
  rintro o u ⟨rfl, rfl⟩
  exact ⟨rfl, rfl⟩

theorem Gives.unwrap_err {m : Prog σ ε α} {e : ε} (h : Gives view m v (.err e) w) :
    Gives view (unwrap m : Prog σ ε' α) v .panic w := by
  refine ends_unwrap (ends_mono h ?_)
  rintro o u ⟨rfl, rfl⟩
  exact ⟨rfl, rfl⟩

end Lifting

end Prog
