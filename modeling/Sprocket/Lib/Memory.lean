/-
  File:      Sprocket/Lib/Memory.lean
  Subject:   THE MEMORY OF A 32-BIT MACHINE, byte by byte.

  Addresses are words and wrap. `dist a x` is how far `x` lies above `a`, modulo the size of
  memory; what a run of stores leaves at `x` depends on `x` through its distance from the start
  of the run alone (`write_apply`, `fill_apply`).
-/
import Mathlib.Logic.Function.Basic
import Sprocket.Lib.Bytes

open Bytes

/-- Memory: a byte at every address. -/
abbrev Mem : Type := UInt32 → UInt8

namespace Mem

/-! ## 1. Distances -/

/-- How far `x` lies above `a`. -/
def dist (a x : UInt32) : Nat := (x - a).toNat

theorem dist_lt (a x : UInt32) : dist a x < 2 ^ 32 := (x - a).toNat_lt

theorem dist_eq (a x : UInt32) :
    dist a x = if a.toNat ≤ x.toNat then x.toNat - a.toNat else x.toNat + 2 ^ 32 - a.toNat := by
  have ha := a.toNat_lt
  have hx := x.toNat_lt
  rw [dist, UInt32.toNat_sub]
  split <;> omega

theorem dist_self (a : UInt32) : dist a a = 0 := by
  rw [dist_eq, if_pos (Nat.le_refl _), Nat.sub_self]

theorem dist_eq_zero {a x : UInt32} : dist a x = 0 ↔ x = a := by
  constructor
  · intro h
    have ha := a.toNat_lt
    rw [dist_eq] at h
    apply UInt32.toNat.inj
    split at h <;> omega
  · intro h
    rw [h, dist_self]

theorem add_dist (a x : UInt32) : a + UInt32.ofNat (dist a x) = x := by
  rw [dist, UInt32.ofNat_toNat, UInt32.add_comm, UInt32.sub_add_cancel]

/-- Moving the start up by `k` brings everything above it nearer. -/
theorem dist_add {a x : UInt32} {k : Nat} (hk : k < 2 ^ 32) :
    dist (a + UInt32.ofNat k) x =
      if k ≤ dist a x then dist a x - k else dist a x + 2 ^ 32 - k := by
  have ha := a.toNat_lt
  have hx := x.toNat_lt
  have hnum : (UInt32.ofNat k).toNat = k := UInt32.toNat_ofNat_of_lt' hk
  rw [dist, dist_eq, UInt32.toNat_sub, UInt32.toNat_add, hnum]
  split <;> split <;> omega

/-! ## 2. Stores -/

/-- Store a run of bytes. -/
def write : Mem → UInt32 → List UInt8 → Mem
  | m, _, [] => m
  | m, a, b :: bs => write (Function.update m a b) (a + 1) bs

/-- Store one byte `n` times. -/
def fill (m : Mem) (a : UInt32) (c : UInt8) : Nat → Mem
  | 0 => m
  | n + 1 => Function.update (fill m a c n) (a + UInt32.ofNat n) c

/-- **A run of bytes, read back.** -/
theorem write_apply : ∀ (bs : List UInt8) (m : Mem) (a x : UInt32), bs.length ≤ 2 ^ 32 →
    write m a bs x = (bs[dist a x]?).getD (m x)
  | [], _, _, _, _ => rfl
  | b :: bs, m, a, x, h => by
      rw [List.length_cons] at h
      have hd := dist_lt a x
      have hnext := dist_add (a := a) (x := x) (k := 1) (by decide)
      have h1 : UInt32.ofNat 1 = 1 := rfl
      rw [h1] at hnext
      rw [write, write_apply bs _ _ x (by omega), hnext]
      by_cases hx : dist a x = 0
      · -- the later stores stay above `x`
        rw [if_neg (by omega), List.getElem?_eq_none (by omega), hx, dist_eq_zero.mp hx,
          Function.update_self]
        rfl
      · have hne : x ≠ a := fun e => hx (dist_eq_zero.mpr e)
        rw [if_pos (by omega), Function.update_of_ne hne]
        obtain ⟨d, hd⟩ := Nat.exists_eq_succ_of_ne_zero hx
        rw [hd, List.getElem?_cons_succ, Nat.succ_sub_one]

theorem fill_apply (m : Mem) (a x : UInt32) (c : UInt8) : ∀ n : Nat, n ≤ 2 ^ 32 →
    fill m a c n x = if dist a x < n then c else m x
  | 0, _ => rfl
  | n + 1, h => by
      have ih := fill_apply m a x c n (by omega)
      rw [fill]
      by_cases hx : x = a + UInt32.ofNat n
      · have hdist : dist a x = n := by
          have hzero := dist_eq_zero.mpr hx
          rw [dist_add (by omega)] at hzero
          have := dist_lt a x
          split at hzero <;> omega
        rw [← hx, Function.update_self, if_pos (by omega)]
      · have hne : dist a x ≠ n := by
          intro e
          rw [← e, add_dist] at hx
          exact hx rfl
        rw [Function.update_of_ne hx, ih]
        by_cases hlt : dist a x < n
        · rw [if_pos hlt, if_pos (by omega)]
        · rw [if_neg hlt, if_neg (by omega)]

/-! ## 3. Little-endian fields -/

/-- The word at offset `k` of a record. -/
def word (b : Nat → UInt8) (k : Nat) : UInt32 :=
  UInt32.ofNat (leNat [b k, b (k + 1), b (k + 2), b (k + 3)])

/-- The half word at offset `k` of a record. -/
def half (b : Nat → UInt8) (k : Nat) : UInt16 := UInt16.ofNat (leNat [b k, b (k + 1)])

/-- The bytes from an address on, as a record. -/
def record (m : Mem) (a : UInt32) : Nat → UInt8 := fun k => m (a + UInt32.ofNat k)

theorem word_congr {b c : Nat → UInt8} {n : Nat} (h : ∀ k, k < n → b k = c k) {k : Nat}
    (hk : k + 4 ≤ n) : word b k = word c k := by
  rw [word, word, h k (by omega), h (k + 1) (by omega), h (k + 2) (by omega), h (k + 3) (by omega)]

/-- A word of a record that starts with an array of words. -/
theorem word_flatMap_le32 {b : Nat → UInt8} {l : List UInt32}
    (h : ∀ k, k < 4 * l.length → b k = (l.flatMap le32).getD k 0) {k : Nat} (hk : k < l.length) :
    word b (4 * k) = l.getD k 0 := by
  have hbyte : ∀ j, j < 4 → b (4 * k + j) = (le32 (l.getD k 0)).getD j 0 := by
    intro j hj
    have hdiv : (4 * k + j) / 4 = k := by omega
    have hmod : (4 * k + j) % 4 = j := by omega
    rw [h _ (by omega), List.getD_eq_getElem?_getD, getElem?_flatMap_le32 l _ (by omega), hdiv,
      hmod, Option.getD_some]
  have hfour : [b (4 * k), b (4 * k + 1), b (4 * k + 2), b (4 * k + 3)] = le32 (l.getD k 0) := by
    rw [hbyte 1 (by decide), hbyte 2 (by decide), hbyte 3 (by decide),
      show b (4 * k) = _ from hbyte 0 (by decide)]
    rfl
  rw [word, hfour, u32_leNat_le32]

theorem half_congr {b c : Nat → UInt8} {n : Nat} (h : ∀ k, k < n → b k = c k) {k : Nat}
    (hk : k + 2 ≤ n) : half b k = half c k := by
  rw [half, half, h k (by omega), h (k + 1) (by omega)]

end Mem
