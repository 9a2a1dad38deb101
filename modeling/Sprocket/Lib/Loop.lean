/-
  File:      Sprocket/Lib/Loop.lean
  Subject:   LOOPS, and the invariant rules for them.

  * `forEach` -- a loop over a list; the invariant of `ends_forEach` speaks of the rounds left;
  * `whileLoop` -- a loop that goes on while a condition on its local variables holds. It is given
    a number of rounds; when they are used up it ends with an error of its own. `ends_whileLoop`
    is the one rule for it: with an invariant that bounds the rounds still needed the error cannot
    occur, and with an invariant under which the condition always holds the loop never ends
    otherwise.
-/
import Sprocket.Lib.Prog

namespace Prog

variable {σ υ ε α ι : Type}

/-- A loop over a list. -/
def forEach (m : ι → Prog σ ε Unit) : List ι → Prog σ ε Unit
  | [] => pure ()
  | x :: xs => do
    m x
    forEach m xs

/-- At most `rounds` rounds of a loop over the local variables `α`. -/
def whileLoop (cond : α → Bool) (body : α → Prog σ ε α) (outOfRounds : ε) :
    Nat → α → Prog σ ε α
  | 0, _ => fail outOfRounds
  | rounds + 1, a =>
    if cond a then do
      let b ← body a
      whileLoop cond body outOfRounds rounds b
    else pure a

/-- What one round of a loop has to meet: the invariant for the rounds that are left, or, when it
    ends the loop, the postcondition. -/
def RoundPost {β : Type} (I : α → υ → Prop) (Q : Outcome ε β → υ → Prop) :
    Outcome ε α → υ → Prop
  | .ok a, w => I a w
  | .err e, w => Q (.err e) w
  | .panic, w => Q .panic w

section Rules

variable {view : σ → υ}

/-- **The invariant rule for loops over a list.** -/
theorem ends_forEach {m : ι → Prog σ ε Unit} {I : List ι → υ → Prop}
    {Q : Outcome ε Unit → υ → Prop}
    (hround : ∀ x xs v, I (x :: xs) v → Ends view (m x) v (RoundPost (fun _ => I xs) Q))
    (hend : ∀ v, I [] v → Q (.ok ()) v) :
    ∀ (xs : List ι) (v : υ), I xs v → Ends view (forEach m xs) v Q
  | [], v, h => ends_pure (hend v h)
  | x :: xs, v, h =>
      ends_bind_of (hround x xs v h) (fun _ w hw => ends_forEach hround hend xs w hw)
        (fun _ _ hw => hw) (fun _ hw => hw)

/-- **The invariant rule for `while` loops.** The invariant may depend on the rounds allowed. -/
theorem ends_whileLoop {cond : α → Bool} {body : α → Prog σ ε α} {outOfRounds : ε}
    {I : Nat → α → υ → Prop} {Q : Outcome ε α → υ → Prop}
    (hout : ∀ a v, I 0 a v → Q (.err outOfRounds) v)
    (hround : ∀ n a v, I (n + 1) a v → cond a = true →
      Ends view (body a) v (RoundPost (I n) Q))
    (hend : ∀ n a v, I (n + 1) a v → cond a = false → Q (.ok a) v) :
    ∀ (n : Nat) (a : α) (v : υ), I n a v →
      Ends view (whileLoop cond body outOfRounds n a) v Q
  | 0, a, v, h => ends_fail (hout a v h)
  | n + 1, a, v, h => by
      unfold whileLoop
      cases hc : cond a with
      | true =>
        rw [if_pos rfl]
        exact ends_bind_of (hround n a v h hc)
          (fun b w hw => ends_whileLoop hout hround hend n b w hw)
          (fun _ _ hw => hw) (fun _ hw => hw)
      | false =>
        rw [if_neg (by decide)]
        exact ends_pure (hend n a v h hc)

end Rules

end Prog
