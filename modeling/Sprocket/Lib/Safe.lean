/-
  File:      Sprocket/Lib/Safe.lean
  Subject:   CODE THAT DOES NOT PANIC.

  `Safe view m v Q`: from every state that looks like `v` the code ends with a value that meets `Q`,
  or with an error, and never with a panic. Nothing is said about the state an error leaves. The
  rules follow the code: what may fail may fail, every check has to be shown to pass.
-/
import Sprocket.Lib.Word

namespace Prog

variable {σ τ φ υ ε ε' α β : Type}

/-- **The code does not panic**, and a value it returns meets `Q`. -/
def Safe (view : σ → υ) (m : Prog σ ε α) (v : υ) (Q : α → υ → Prop) : Prop :=
  Ends view m v fun o w => o ≠ .panic ∧ ∀ a, o = .ok a → Q a w

section Rules

variable {view : σ → υ} {v w : υ} {Q R : α → υ → Prop}

theorem safe_pure {a : α} (h : Q a v) : Safe view (pure a : Prog σ ε α) v Q := by
  refine ends_pure ⟨nofun, ?_⟩
  rintro b ⟨⟩
  exact h

theorem safe_fail (e : ε) : Safe view (fail e : Prog σ ε α) v Q := ends_fail ⟨nofun, nofun⟩

theorem Safe.mono {m : Prog σ ε α} (h : Safe view m v Q) (hQ : ∀ a w, Q a w → R a w) :
    Safe view m v R :=
  ends_mono h fun _ w ho => ⟨ho.1, fun a e => hQ a w (ho.2 a e)⟩

/-- Sequencing after a part that is safe. -/
theorem Safe.then {m : Prog σ ε α} {k : α → Prog σ ε β} {P : β → υ → Prop} (hm : Safe view m v Q)
    (hk : ∀ a w, Q a w → Safe view (k a) w P) : Safe view (m >>= k) v P :=
  ends_bind_of hm (fun a w ho => hk a w (ho.2 a rfl)) (fun _ _ _ => ⟨nofun, nofun⟩)
    (fun _ ho => absurd rfl ho.1)

theorem Gives.safe {m : Prog σ ε α} {a : α} (h : Gives view m v (.ok a) w) (hQ : Q a w) :
    Safe view m v Q := by
  refine h.ends ⟨nofun, ?_⟩
  rintro b ⟨⟩
  exact hQ

end Rules

section Lifting

variable {view : σ → υ} {v : υ} {x : τ}

/-- Code on the first half of a state leaves the second half alone. -/
theorem Safe.onFst {m : Prog σ ε α} {P : α → υ → Prop} (h : Safe view m v P) :
    Safe (onView view) (onFst m) (v, x) fun a w => P a w.1 ∧ w.2 = x :=
  ends_onFst (ends_mono h fun _ _ ho => ⟨ho.1, fun a e => ⟨ho.2 a e, rfl⟩⟩)

theorem Safe.onFst_then {m : Prog σ ε α} {k : α → Prog (σ × τ) ε β} {P : α → υ → Prop}
    {Q : β → υ × τ → Prop} (hm : Safe view m v P)
    (hk : ∀ a w, P a w → Safe (onView view) (k a) (w, x) Q) :
    Safe (onView view) (Prog.onFst m >>= k) (v, x) Q := by
  refine hm.onFst.then ?_
  rintro a ⟨w, y⟩ ⟨ha, rfl⟩
  exact hk a w ha

theorem Safe.withLocal {m : Prog (σ × τ) ε α} {Q : α × τ → υ → Prop}
    (h : Safe (onView view) m (v, x) fun a w => Q (a, w.2) w.1) :
    Safe view (withLocal x m) v Q := by
  refine ends_withLocal (ends_mono h fun o w ho => ?_)
  cases o with
  | ok a =>
    refine ⟨nofun, ?_⟩
    rintro b ⟨⟩
    exact ho.2 a rfl
  | err e => exact ⟨nofun, nofun⟩
  | panic => exact absurd rfl ho.1

theorem Safe.mapErr {m : Prog σ ε α} {g : ε → ε'} {Q : α → υ → Prop} (h : Safe view m v Q) :
    Safe view (mapErr g m) v Q := by
  refine ends_mapErr (ends_mono h fun o w ho => ?_)
  cases o with
  | ok a =>
    refine ⟨nofun, ?_⟩
    rintro b ⟨⟩
    exact ho.2 a rfl
  | err e => exact ⟨nofun, nofun⟩
  | panic => exact absurd rfl ho.1

theorem Safe.onPart {look : τ → φ} {put : τ → φ → τ} {m : Prog (σ × φ) ε α}
    {Q : α → υ × τ → Prop}
    (h : Safe (onView view) m (v, look x) fun a w => Q a (w.1, put x w.2)) :
    Safe (onView view) (onPart look put m) (v, x) Q :=
  ends_onPart h

end Lifting

end Prog
