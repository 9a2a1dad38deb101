/-
  File:      Sprocket/Lib/Bytes.lean
  Subject:   BYTE BUFFERS: slices, overwritten slices, little-endian words.

  A buffer is a list of bytes. A slice `b[off .. off + n]` is `slice b off n`; writing `src` over
  the bytes from `off` on is `splice b off src`. The two meet in `slice_splice_same` (what was
  written is read) and `slice_splice_other` (nothing else moved); everything about records laid
  out in a buffer follows from these two and the round trip of the integer codec
  (`leNat_leBytes`). A buffer seen as an array of 32-bit words is `words`.
-/
import Mathlib.Data.List.Basic
import Mathlib.Tactic.Common
import Mathlib.Tactic.Ring

namespace Bytes

/-! ## 1. Slices -/

/-- The `n` bytes from `off` on (fewer at the end of the buffer). -/
def slice (b : List UInt8) (off n : Nat) : List UInt8 := (b.drop off).take n

/-- The buffer with `src` written over the bytes from `off` on. -/
def splice (b : List UInt8) (off : Nat) (src : List UInt8) : List UInt8 :=
  b.take off ++ src ++ b.drop (off + src.length)

theorem length_slice (b : List UInt8) (off n : Nat) :
    (slice b off n).length = min n (b.length - off) := by
  simp [slice]

theorem length_slice_of_le {b : List UInt8} {off n : Nat} (h : off + n ≤ b.length) :
    (slice b off n).length = n := by
  rw [length_slice]
  omega

theorem getElem?_slice (b : List UInt8) (off n i : Nat) :
    (slice b off n)[i]? = if i < n then b[off + i]? else none := by
  simp only [slice, List.getElem?_take, List.getElem?_drop]

theorem length_splice {b src : List UInt8} {off : Nat} (h : off + src.length ≤ b.length) :
    (splice b off src).length = b.length := by
  simp [splice]
  omega

/-- A splice, byte by byte. -/
theorem getElem?_splice {b src : List UInt8} {off : Nat} (h : off ≤ b.length) (i : Nat) :
    (splice b off src)[i]? =
      if i < off then b[i]? else if i < off + src.length then src[i - off]? else b[i]? := by
  have hlen : (b.take off).length = off := by simp [h]
  unfold splice
  rw [List.append_assoc, List.getElem?_append, hlen]
  split
  · rw [List.getElem?_take]
    simp [*]
  · rw [List.getElem?_append]
    split
    · rw [if_pos (by omega)]
    · rw [if_neg (by omega), List.getElem?_drop]
      congr 1
      omega

/-- **What was written is read.** -/
theorem slice_splice_same {b src : List UInt8} {off n : Nat} (h : off ≤ b.length)
    (hn : n = src.length) : slice (splice b off src) off n = src := by
  subst hn
  refine List.ext_getElem? fun i => ?_
  rw [getElem?_slice, getElem?_splice h]
  by_cases hi : i < src.length
  · rw [if_pos hi, if_neg (by omega), if_pos (by omega)]
    congr 1
    omega
  · rw [if_neg hi, List.getElem?_eq_none (by omega)]

/-- **Nothing else moved.** -/
theorem slice_splice_other {b src : List UInt8} {off i n : Nat} (h : off ≤ b.length)
    (hd : i + n ≤ off ∨ off + src.length ≤ i) : slice (splice b off src) i n = slice b i n := by
  refine List.ext_getElem? fun j => ?_
  rw [getElem?_slice, getElem?_slice, getElem?_splice h]
  by_cases hj : j < n
  · rw [if_pos hj, if_pos hj]
    rcases hd with hd | hd
    · rw [if_pos (by omega)]
    · rw [if_neg (by omega), if_neg (by omega)]
  · rw [if_neg hj, if_neg hj]

/-- A slice of what was written. -/
theorem slice_splice_inner {b src : List UInt8} {off k n : Nat} (h : off ≤ b.length)
    (hn : k + n ≤ src.length) : slice (splice b off src) (off + k) n = slice src k n := by
  refine List.ext_getElem? fun j => ?_
  rw [getElem?_slice, getElem?_slice, getElem?_splice h]
  by_cases hj : j < n
  · rw [if_pos hj, if_pos hj, if_neg (by omega), if_pos (by omega)]
    congr 1
    omega
  · rw [if_neg hj, if_neg hj]

/-- The bytes that follow a first part of known length. -/
theorem slice_append {a b : List UInt8} {k n : Nat} (h : k = a.length) :
    slice (a ++ b) k n = b.take n := by
  rw [slice, h, List.drop_left]

/-- Two splices one behind the other are one. -/
theorem splice_splice_next {b s t : List UInt8} {off : Nat}
    (h : off + s.length + t.length ≤ b.length) :
    splice (splice b off s) (off + s.length) t = splice b off (s ++ t) := by
  have hlen : (splice b off s).length = b.length := length_splice (by omega)
  refine List.ext_getElem? fun i => ?_
  rw [getElem?_splice (by omega), getElem?_splice (by omega), getElem?_splice (by omega),
    List.getElem?_append, List.length_append]
  by_cases h1 : i < off
  · rw [if_pos (by omega), if_pos h1, if_pos h1]
  · by_cases h2 : i < off + s.length
    · rw [if_pos h2, if_neg h1, if_pos h2, if_neg h1, if_pos (by omega), if_pos (by omega)]
    · by_cases h3 : i < off + s.length + t.length
      · rw [if_neg h2, if_pos h3, if_neg h1, if_pos (by omega), if_neg (by omega)]
        congr 1
        omega
      · rw [if_neg h2, if_neg h3, if_neg h1, if_neg h2, if_neg h1, if_neg (by omega)]

theorem splice_zero (b src : List UInt8) : splice b 0 src = src ++ b.drop src.length := by
  simp [splice]

/-- A splice over the whole buffer. -/
theorem splice_all {b src : List UInt8} (h : src.length = b.length) : splice b 0 src = src := by
  rw [splice_zero, h, List.drop_length, List.append_nil]

/-! ## 2. Little-endian integers -/

/-- The value of a little-endian byte string. -/
def leNat : List UInt8 → Nat
  | [] => 0
  | b :: bs => b.toNat + 256 * leNat bs

/-- The `n` low bytes of `v`, least significant first. -/
def leBytes : Nat → Nat → List UInt8
  | 0, _ => []
  | n + 1, v => UInt8.ofNat v :: leBytes n (v / 256)

@[simp] theorem length_leBytes (n v : Nat) : (leBytes n v).length = n := by
  induction n generalizing v with
  | zero => rfl
  | succ n ih => simp [leBytes, ih]

/-- **The codec's round trip**, up to the width of the word. -/
theorem leNat_leBytes (n v : Nat) : leNat (leBytes n v) = v % 256 ^ n := by
  induction n generalizing v with
  | zero => simp [leBytes, leNat, Nat.mod_one]
  | succ n ih =>
    have h : (UInt8.ofNat v).toNat = v % 256 := by simp [UInt8.toNat_ofNat']
    rw [leBytes, leNat, ih, h, Nat.pow_succ', Nat.mod_mul]

/-- The bytes of a number read from bytes are these bytes. -/
theorem leBytes_leNat : ∀ l : List UInt8, leBytes l.length (leNat l) = l
  | [] => rfl
  | x :: l => by
      have hx := x.toNat_lt
      have hdiv : (x.toNat + 256 * leNat l) / 256 = leNat l := by omega
      have hbyte : UInt8.ofNat (x.toNat + 256 * leNat l) = x := by
        apply UInt8.toNat.inj
        rw [UInt8.toNat_ofNat']
        omega
      rw [List.length_cons, leNat, leBytes, hdiv, leBytes_leNat l, hbyte]

theorem leNat_lt : ∀ l : List UInt8, leNat l < 256 ^ l.length
  | [] => Nat.one_pos
  | x :: l => by
      have hx := x.toNat_lt
      have hl := leNat_lt l
      rw [List.length_cons, leNat, Nat.pow_succ]
      omega

theorem leNat_replicate_zero (n : Nat) : leNat (List.replicate n 0) = 0 := by
  induction n with
  | zero => rfl
  | succ n ih => simp [List.replicate_succ, leNat, ih]

/-- The 32-bit word at byte offset `off`. -/
def u32At (b : List UInt8) (off : Nat) : UInt32 := UInt32.ofNat (leNat (slice b off 4))

/-- The 16-bit word at byte offset `off`. -/
def u16At (b : List UInt8) (off : Nat) : UInt16 := UInt16.ofNat (leNat (slice b off 2))

/-- The bytes of a 32-bit word. -/
def le32 (v : UInt32) : List UInt8 := leBytes 4 v.toNat

/-- The bytes of a 16-bit word. -/
def le16 (v : UInt16) : List UInt8 := leBytes 2 v.toNat

@[simp] theorem length_le32 (v : UInt32) : (le32 v).length = 4 := length_leBytes 4 _

@[simp] theorem length_le16 (v : UInt16) : (le16 v).length = 2 := length_leBytes 2 _

theorem u32_leNat_le32 (v : UInt32) : UInt32.ofNat (leNat (le32 v)) = v := by
  have hv : v.toNat % 256 ^ 4 = v.toNat := Nat.mod_eq_of_lt v.toNat_lt
  rw [le32, leNat_leBytes, hv, UInt32.ofNat_toNat]

theorem u16_leNat_le16 (v : UInt16) : UInt16.ofNat (leNat (le16 v)) = v := by
  have hv : v.toNat % 256 ^ 2 = v.toNat := Nat.mod_eq_of_lt v.toNat_lt
  rw [le16, leNat_leBytes, hv, UInt16.ofNat_toNat]

/-- The bytes of a word read from a buffer. -/
theorem le32_u32At {b : List UInt8} {off : Nat} (h : off + 4 ≤ b.length) :
    le32 (u32At b off) = slice b off 4 := by
  have hlen : (slice b off 4).length = 4 := length_slice_of_le h
  have hlt := leNat_lt (slice b off 4)
  rw [hlen] at hlt
  have hnat : (u32At b off).toNat = leNat (slice b off 4) := by
    rw [u32At, UInt32.toNat_ofNat']
    exact Nat.mod_eq_of_lt hlt
  have hround := leBytes_leNat (slice b off 4)
  rw [hlen] at hround
  rw [le32, hnat, hround]

theorem u32At_splice_same {b : List UInt8} {off : Nat} (v : UInt32) (h : off ≤ b.length) :
    u32At (splice b off (le32 v)) off = v := by
  rw [u32At, slice_splice_same h (by simp), u32_leNat_le32]

theorem u32At_splice_other {b src : List UInt8} {off i : Nat} (h : off ≤ b.length)
    (hd : i + 4 ≤ off ∨ off + src.length ≤ i) : u32At (splice b off src) i = u32At b i := by
  rw [u32At, slice_splice_other h hd, u32At]

theorem slice_replicate (n off k : Nat) (x : UInt8) (h : off + k ≤ n) :
    slice (List.replicate n x) off k = List.replicate k x := by
  simp only [slice, List.drop_replicate, List.take_replicate]
  congr 1
  omega

theorem u32At_replicate_zero {n off : Nat} (h : off + 4 ≤ n) :
    u32At (List.replicate n 0) off = 0 := by
  rw [u32At, slice_replicate _ _ _ _ h, leNat_replicate_zero]
  rfl

/-! ## 3. A buffer as an array of words -/

/-- The buffer read as an array of 32-bit words. -/
def words (b : List UInt8) : List UInt32 :=
  (List.range (b.length / 4)).map fun i => u32At b (4 * i)

/-- Overwrite word `i`. -/
def setWord (b : List UInt8) (i : Nat) (v : UInt32) : List UInt8 := splice b (4 * i) (le32 v)

@[simp] theorem length_words (b : List UInt8) : (words b).length = b.length / 4 := by
  simp [words]

theorem getElem?_words (b : List UInt8) (i : Nat) :
    (words b)[i]? = if i < b.length / 4 then some (u32At b (4 * i)) else none := by
  unfold words
  rw [List.getElem?_map]
  split
  · rw [List.getElem?_range ‹_›]
    rfl
  · rw [List.getElem?_eq_none (by simp; omega)]
    rfl

theorem length_setWord {b : List UInt8} {i : Nat} (v : UInt32) (h : i < b.length / 4) :
    (setWord b i v).length = b.length :=
  length_splice (by rw [length_le32]; omega)

/-- Overwriting a word of the buffer overwrites that word of the array. -/
theorem words_setWord {b : List UInt8} {i : Nat} (v : UInt32) (h : i < b.length / 4) :
    words (setWord b i v) = (words b).set i v := by
  refine List.ext_getElem? fun j => ?_
  rw [List.getElem?_set, getElem?_words, getElem?_words, length_setWord v h, length_words]
  by_cases hij : i = j
  · subst hij
    rw [if_pos h, if_pos rfl, if_pos h, setWord, u32At_splice_same v (by omega)]
  · rw [if_neg hij]
    split
    · rw [setWord, u32At_splice_other (by omega) (by rw [length_le32]; omega)]
    · rfl

theorem length_flatMap_le32 (l : List UInt32) : (l.flatMap le32).length = 4 * l.length := by
  induction l with
  | nil => rfl
  | cons v l ih =>
    rw [List.flatMap_cons, List.length_append, length_le32, ih, List.length_cons]
    omega

/-- Word `k` of an array of words. -/
theorem slice_flatMap_le32 (l : List UInt32) (k : Nat) (h : k < l.length) :
    slice (l.flatMap le32) (4 * k) 4 = le32 (l.get ⟨k, h⟩) := by
  induction l generalizing k with
  | nil => exact absurd h (Nat.not_lt_zero k)
  | cons v l ih =>
    rw [List.flatMap_cons]
    cases k with
    | zero =>
      rw [slice, Nat.mul_zero, List.drop_zero, List.take_left' (length_le32 v)]
      rfl
    | succ k =>
      have hk : k < l.length := by simpa using h
      have h4 : 4 * (k + 1) = (le32 v).length + 4 * k := by rw [length_le32]; omega
      rw [slice, h4, List.drop_append, List.drop_of_length_le (by omega), List.nil_append,
        Nat.add_sub_cancel_left]
      exact ih k hk

/-- Byte `k` of an array of words. -/
theorem getElem?_flatMap_le32 (l : List UInt32) (k : Nat) (h : k < 4 * l.length) :
    (l.flatMap le32)[k]? = some ((le32 (l.getD (k / 4) 0)).getD (k % 4) 0) := by
  have hword : k / 4 < l.length := by omega
  have hmod : k % 4 < 4 := Nat.mod_lt k (by decide)
  have hbyte := getElem?_slice (l.flatMap le32) (4 * (k / 4)) 4 (k % 4)
  have hget : l.getD (k / 4) 0 = l.get ⟨k / 4, hword⟩ := by
    simp [List.getD_eq_getElem?_getD, hword]
  have hle : ∀ w, (le32 w)[k % 4]? = some ((le32 w).getD (k % 4) 0) := by
    intro w
    have hin : k % 4 < (le32 w).length := by rw [length_le32]; exact hmod
    rw [List.getD_eq_getElem?_getD, List.getElem?_eq_getElem hin, Option.getD_some]
  rw [if_pos hmod, Nat.div_add_mod, slice_flatMap_le32 l (k / 4) hword, ← hget, hle] at hbyte
  exact hbyte.symm

/-- Consecutive slices of four bytes, put together. -/
theorem flatMap_slice_four (b : List UInt8) (n : Nat) :
    (List.range n).flatMap (fun i => slice b (4 * i) 4) = b.take (4 * n) := by
  induction n with
  | zero => rfl
  | succ n ih =>
    rw [List.range_succ, List.flatMap_append, ih, List.flatMap_cons, List.flatMap_nil,
      List.append_nil, slice, Nat.mul_succ, List.take_add]

/-- **A buffer of whole words is the bytes of its words.** -/
theorem flatMap_le32_words {b : List UInt8} (h : b.length % 4 = 0) :
    (words b).flatMap le32 = b := by
  have hmap : (words b).flatMap le32 =
      (List.range (b.length / 4)).flatMap fun i => slice b (4 * i) 4 := by
    rw [words, List.flatMap_map]
    refine List.flatMap_congr fun i hi => le32_u32At ?_
    have := List.mem_range.mp hi
    omega
  rw [hmap, flatMap_slice_four, List.take_of_length_le (by omega)]

theorem words_replicate_zero (n : Nat) :
    words (List.replicate n 0) = List.replicate (n / 4) 0 := by
  refine List.ext_getElem? fun j => ?_
  rw [getElem?_words, List.getElem?_replicate, List.length_replicate]
  split
  · rw [u32At_replicate_zero (by omega)]
  · rfl

end Bytes
