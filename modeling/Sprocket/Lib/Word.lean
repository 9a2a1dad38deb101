/-
  File:      Sprocket/Lib/Word.lean
  Subject:   32-BIT ARITHMETIC WITH OVERFLOW CHECKS.

  Unsigned words are natural numbers below `2 ^ 32`; an operation whose result is not one panics.
  `toSigned` reads a word as a signed number (a cast), `checkedInt` is the check on a signed
  result, and `ptrOffset` moves a pointer, which wraps. Each operation has a rule for the case in
  which it stays in range.
-/
import Mathlib.Tactic.Ring
import Sprocket.Lib.Prog

namespace Prog

variable {σ υ ε α : Type}

/-- An addition that panics on overflow. -/
def checkedAdd (a b : Nat) : Prog σ ε Nat := if a + b < 2 ^ 32 then pure (a + b) else crash

/-- A subtraction that panics below zero. -/
def checkedSub (a b : Nat) : Prog σ ε Nat := if b ≤ a then pure (a - b) else crash

/-- A multiplication that panics on overflow. -/
def checkedMul (a b : Nat) : Prog σ ε Nat := if a * b < 2 ^ 32 then pure (a * b) else crash

/-- The same on bytes. -/
def checkedAddU8 (a b : UInt8) : Prog σ ε UInt8 :=
  if a.toNat + b.toNat < 2 ^ 8 then pure (a + b) else crash

def checkedAddU16 (a b : UInt16) : Prog σ ε UInt16 :=
  if a.toNat + b.toNat < 2 ^ 16 then pure (a + b) else crash

def checkedSubU8 (a b : UInt8) : Prog σ ε UInt8 := if b ≤ a then pure (a - b) else crash

/-- A word read as a signed number. -/
def toSigned (n : Nat) : Int := if n < 2 ^ 31 then n else n - 2 ^ 32

/-- A signed result that panics when it does not fit a word. -/
def checkedInt (z : Int) : Prog σ ε Int :=
  if -2 ^ 31 ≤ z ∧ z < 2 ^ 31 then pure z else crash

/-- The pointer `d` bytes behind `p`, modulo the size of memory. -/
def ptrOffset (p : Nat) (d : Int) : Nat := ((p + d) % 2 ^ 32).toNat

section Rules

variable {view : σ → υ} {v : υ} {a b : Nat}

theorem gives_checkedAdd (h : a + b < 2 ^ 32) :
    Gives view (checkedAdd a b : Prog σ ε Nat) v (.ok (a + b)) v := by
  rw [checkedAdd, if_pos h]
  exact gives_pure _

theorem gives_checkedAdd_over (h : 2 ^ 32 ≤ a + b) :
    Gives view (checkedAdd a b : Prog σ ε Nat) v .panic v := by
  rw [checkedAdd, if_neg (Nat.not_lt_of_le h)]
  exact gives_crash

theorem ends_checkedAdd {Q : Outcome ε Nat → υ → Prop} (hok : Q (.ok (a + b)) v)
    (hpanic : Q .panic v) : Ends view (checkedAdd a b : Prog σ ε Nat) v Q := by
  unfold checkedAdd
  split
  · exact ends_pure hok
  · exact ends_crash hpanic

theorem gives_checkedSub (h : b ≤ a) :
    Gives view (checkedSub a b : Prog σ ε Nat) v (.ok (a - b)) v := by
  rw [checkedSub, if_pos h]
  exact gives_pure _

theorem gives_checkedMul (h : a * b < 2 ^ 32) :
    Gives view (checkedMul a b : Prog σ ε Nat) v (.ok (a * b)) v := by
  rw [checkedMul, if_pos h]
  exact gives_pure _

theorem gives_checkedAddU8 {x y : UInt8} (h : x.toNat + y.toNat < 2 ^ 8) :
    Gives view (checkedAddU8 x y : Prog σ ε UInt8) v (.ok (x + y)) v := by
  rw [checkedAddU8, if_pos h]
  exact gives_pure _

theorem gives_checkedAddU8_over {x y : UInt8} (h : 2 ^ 8 ≤ x.toNat + y.toNat) :
    Gives view (checkedAddU8 x y : Prog σ ε UInt8) v .panic v := by
  rw [checkedAddU8, if_neg (Nat.not_lt_of_le h)]
  exact gives_crash

theorem gives_checkedAddU16 {x y : UInt16} (h : x.toNat + y.toNat < 2 ^ 16) :
    Gives view (checkedAddU16 x y : Prog σ ε UInt16) v (.ok (x + y)) v := by
  rw [checkedAddU16, if_pos h]
  exact gives_pure _

theorem gives_checkedInt {z : Int} (h : -2 ^ 31 ≤ z ∧ z < 2 ^ 31) :
    Gives view (checkedInt z : Prog σ ε Int) v (.ok z) v := by
  rw [checkedInt, if_pos h]
  exact gives_pure _

theorem toSigned_small (h : a < 2 ^ 31) : toSigned a = a := if_pos h

theorem ptrOffset_small {d : Nat} (h : a + d < 2 ^ 32) : ptrOffset a d = a + d := by
  unfold ptrOffset
  omega

end Rules

end Prog
