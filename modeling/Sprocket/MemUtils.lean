/-
  File:      Sprocket/MemUtils.lean
  Subject:   ADDRESSES AND PAGES (`mem_utils/src/lib.rs`).

  The memory layout of the kernel and the address arithmetic of the `Address` trait. `VirtAddr` and
  `PhysAddr` both wrap a `usize`, a 32-bit word, and are plain numbers here; the linker symbol
  `end` is a parameter.
-/
import Sprocket.Lib.Word

namespace Sprocket

open Prog

abbrev kernbase : Nat := 0x80000000
/-- Start of extended memory. -/
abbrev extmem : Nat := 0x100000
/-- Address where the kernel is linked. -/
abbrev kernlink : Nat := kernbase + extmem
/-- Top physical memory. -/
abbrev phystop : Nat := 0xE000000
/-- Other devices are at high addresses. -/
abbrev devspace : Nat := 0xFE000000
abbrev pgsize : Nat := 4096

variable {σ ε : Type}

def isPageAligned (a : Nat) : Bool := a % pgsize == 0

def pageRoundup (a : Nat) : Prog σ ε Nat := do
  let x ← checkedAdd a pgsize
  let y ← checkedSub x 1
  -- clearing the low bits is rounding down to a multiple of the page size
  pure (y / pgsize * pgsize)

def pageRounddown (a : Nat) : Nat := a / pgsize * pgsize

def toPhys (a : Nat) : Prog σ ε Nat := checkedSub a kernbase

def toVirt (a : Nat) : Prog σ ε Nat := checkedAdd a kernbase

/-- `offset::<u8>`: a positive offset is added with a check, the others wrap. -/
def offset (a : Nat) (off : Int) : Prog σ ε Nat :=
  if 0 < off then checkedAdd a off.toNat else pure ((a + (off % 2 ^ 32).toNat) % 2 ^ 32)

/-- The difference of two addresses, which wraps. -/
def addrSub (a b : Nat) : Nat := (a + 2 ^ 32 - b) % 2 ^ 32

def pageDirIndex (a : Nat) : Nat := (a >>> 22) &&& 0x3FF

def pageTableIndex (a : Nat) : Nat := (a >>> 12) &&& 0x3FF

/-- The number of the page an address begins or lies before, counted from `end`. -/
def pageno (kend a : Nat) : Prog σ ε Nat := do
  let new ← pageRoundup a
  let base ← pageRoundup kend
  pure (addrSub new base / pgsize)

section Rules

variable {υ : Type} {view : σ → υ} {v : υ} {a : Nat}

/-- An address rounded up to a page. -/
def roundUp (a : Nat) : Nat := (a + 4095) / 4096 * 4096

theorem gives_pageRoundup (h : a + 4096 < 2 ^ 32) :
    Gives view (pageRoundup a : Prog σ ε Nat) v (.ok (roundUp a)) v := by
  unfold pageRoundup
  refine (gives_checkedAdd h).then ((gives_checkedSub (by omega)).then ?_)
  exact gives_pure _

theorem gives_pageno {kend : Nat} (hk : roundUp kend ≤ a) (ha : a % 4096 = 0)
    (h : a + 4096 < 2 ^ 32) :
    Gives view (pageno kend a : Prog σ ε Nat) v (.ok ((a - roundUp kend) / 4096)) v := by
  have hround : roundUp a = a := by
    unfold roundUp
    omega
  have hkend : kend ≤ roundUp kend := by
    unfold roundUp
    omega
  unfold pageno
  refine (gives_pageRoundup h).then ((gives_pageRoundup (by omega)).then ?_)
  have e : addrSub (roundUp a) (roundUp kend) = a - roundUp kend := by
    rw [hround]
    unfold addrSub
    omega
  rw [e]
  exact gives_pure _

/-- An offset that is a word, moved within the address space. -/
theorem gives_offset {n : Nat} (h : a + n < 2 ^ 32) :
    Gives view (offset a (toSigned n) : Prog σ ε Nat) v (.ok (a + n)) v := by
  unfold offset
  by_cases hpos : 0 < toSigned n
  · have e : (toSigned n).toNat = n := by
      unfold toSigned at hpos ⊢
      split at hpos <;> omega
    rw [if_pos hpos, e]
    exact gives_checkedAdd h
  · have e : (a + (toSigned n % 2 ^ 32).toNat) % 2 ^ 32 = a + n := by
      unfold toSigned at hpos ⊢
      split at hpos <;> omega
    rw [if_neg hpos, e]
    exact gives_pure _

/-- The next page. -/
theorem gives_offset_page (h : a + pgsize < 2 ^ 32) :
    Gives view (offset a pgsize : Prog σ ε Nat) v (.ok (a + pgsize)) v := by
  unfold offset
  rw [if_pos (by decide), Int.toNat_natCast]
  exact gives_checkedAdd h

end Rules

/-! ## Indices into the two levels of page tables -/

theorem pageDirIndex_eq (a : Nat) : pageDirIndex a = a / 4194304 % 1024 := by
  unfold pageDirIndex
  rw [Nat.shiftRight_eq_div_pow]
  exact Nat.and_two_pow_sub_one_eq_mod _ 10

theorem pageTableIndex_eq (a : Nat) : pageTableIndex a = a / 4096 % 1024 := by
  unfold pageTableIndex
  rw [Nat.shiftRight_eq_div_pow]
  exact Nat.and_two_pow_sub_one_eq_mod _ 10

/-- The directory index of an address is that of its page. -/
theorem pageDirIndex_page {a : Nat} (h : a < 2 ^ 32) : pageDirIndex a = a / 4096 / 1024 := by
  rw [pageDirIndex_eq, Nat.div_div_eq_div_mul]
  omega

end Sprocket
