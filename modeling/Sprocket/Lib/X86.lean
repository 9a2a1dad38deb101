/-
  File:      Sprocket/Lib/X86.lean
  Subject:   THE STACK OF A 32-BIT X86, and the instructions that save and restore its registers.

  A machine is its registers and its memory. `exec` is one instruction; the ones here are those of
  interrupt entries and context switches, which only move words between registers and the stack.
  Code is straight-line, so the instruction pointer is followed only where code is left.

  A run of pushes is one block of words below the stack pointer (`pushAll_mem`), and what stands in
  the block is read back word by word (`pushAll_above`).
-/
import Sprocket.Lib.Memory

namespace Mem

open Bytes

theorem dist_ofNat (a : UInt32) {k : Nat} (hk : k < 2 ^ 32) : dist a (a + UInt32.ofNat k) = k := by
  rw [dist, UInt32.add_comm, UInt32.add_sub_cancel, UInt32.toNat_ofNat_of_lt' hk]

/-- A run of bytes below another one. -/
theorem write_write_below (m : Mem) (a : UInt32) {bs cs : List UInt8}
    (h : bs.length + cs.length ≤ 2 ^ 32) (hb : bs.length < 2 ^ 32) :
    write (write m (a + UInt32.ofNat bs.length) cs) a bs = write m a (bs ++ cs) := by
  funext x
  have hd := dist_lt a x
  rw [write_apply _ _ _ _ (by omega), write_apply _ _ _ _ (by omega),
    write_apply _ _ _ _ (by rw [List.length_append]; omega), dist_add hb]
  by_cases hin : dist a x < bs.length
  · rw [List.getElem?_append_left hin, List.getElem?_eq_getElem hin]
    rfl
  · rw [List.getElem?_append_right (Nat.le_of_not_lt hin),
      List.getElem?_eq_none (Nat.le_of_not_lt hin), if_pos (Nat.le_of_not_lt hin)]
    rfl

/-- The word at offset `k` above a base is the word at the base moved up. -/
theorem word_record_add (m : Mem) (a : UInt32) (j k : Nat) :
    word (record m (a + UInt32.ofNat j)) k = word (record m a) (j + k) := by
  have hat : ∀ i, record m (a + UInt32.ofNat j) i = record m a (j + i) := by
    intro i
    unfold record
    rw [UInt32.add_assoc, ← UInt32.ofNat_add]
  simp only [word, hat, Nat.add_assoc]

/-- The low half of a word. -/
theorem half_eq_word (b : Nat → UInt8) (k : Nat) : half b k = (word b k).toUInt16 := by
  have h0 := (b k).toNat_lt
  have h1 := (b (k + 1)).toNat_lt
  have h2 := (b (k + 2)).toNat_lt
  have h3 := (b (k + 3)).toNat_lt
  apply UInt16.toNat.inj
  rw [half, word, UInt32.toNat_toUInt16, UInt32.toNat_ofNat_of_lt', UInt16.toNat_ofNat_of_lt']
  · simp only [leNat]
    omega
  · simp only [leNat, UInt16.size]
    omega
  · simp only [leNat, UInt32.size]
    omega

/-- The low byte of a word. -/
theorem byte_eq_word (b : Nat → UInt8) (k : Nat) : b k = (word b k).toUInt8 := by
  have h0 := (b k).toNat_lt
  have h1 := (b (k + 1)).toNat_lt
  have h2 := (b (k + 2)).toNat_lt
  have h3 := (b (k + 3)).toNat_lt
  apply UInt8.toNat.inj
  rw [word, UInt32.toNat_toUInt8, UInt32.toNat_ofNat_of_lt']
  · simp only [leNat]
    omega
  · simp only [leNat, UInt32.size]
    omega

end Mem

namespace X86

open Mem Bytes

/-! ## 1. The machine -/

inductive Reg where
  | eax | ecx | edx | ebx | esp | ebp | esi | edi
  deriving DecidableEq, Repr

inductive Seg where
  | ds | es | fs | gs
  deriving DecidableEq, Repr

structure Machine where
  regs : Reg → UInt32
  segs : Seg → UInt16
  cs : UInt16
  eip : UInt32
  eflags : UInt32
  mem : Mem

namespace Machine

abbrev esp (m : Machine) : UInt32 := m.regs .esp

def setReg (m : Machine) (r : Reg) (w : UInt32) : Machine :=
  { m with regs := Function.update m.regs r w }

def setSeg (m : Machine) (s : Seg) (w : UInt16) : Machine :=
  { m with segs := Function.update m.segs s w }

def push (w : UInt32) (m : Machine) : Machine :=
  { m.setReg .esp (m.esp - 4) with mem := m.mem.write (m.esp - 4) (le32 w) }

def pushAll (ws : List UInt32) (m : Machine) : Machine := ws.foldl (fun m w => m.push w) m

/-- The word `k` bytes above the stack pointer. -/
def above (m : Machine) (k : Nat) : UInt32 := word (record m.mem m.esp) k

/-- The stack pointer moved up, over words that are not needed any more. -/
def drop (n : UInt32) (m : Machine) : Machine := m.setReg .esp (m.esp + n)

end Machine

/-! ## 2. Instructions -/

inductive Instr where
  | pushImm (w : UInt32)
  | pushReg (r : Reg)
  | pushSeg (s : Seg)
  | pushal
  | popReg (r : Reg)
  | popSeg (s : Seg)
  | popal
  /-- `movw $w, %ax` -/
  | movAx (w : UInt16)
  /-- `movw %ax, %s` -/
  | movSeg (s : Seg)
  | addEsp (n : UInt32)
  | iret
  deriving DecidableEq, Repr

/-- A word with the given halves. -/
def joinHalves (high low : UInt16) : UInt32 := UInt32.ofNat (low.toNat + 65536 * high.toNat)

theorem toUInt16_joinHalves (high low : UInt16) : (joinHalves high low).toUInt16 = low := by
  have hh := high.toNat_lt
  have hl := low.toNat_lt
  apply UInt16.toNat.inj
  rw [joinHalves, UInt32.toNat_toUInt16, UInt32.toNat_ofNat_of_lt']
  · omega
  · simp only [UInt32.size]
    omega

/-- **One instruction.** A segment register is pushed as a word whose upper half depends on the
    processor: it is zero, or what memory held before. `high` stands for either. -/
def exec (high : Machine → UInt16) : Instr → Machine → Machine
  | .pushImm w, m => m.push w
  | .pushReg r, m => m.push (m.regs r)
  | .pushSeg s, m => m.push (joinHalves (high m) (m.segs s))
  | .pushal, m => m.pushAll [m.regs .eax, m.regs .ecx, m.regs .edx, m.regs .ebx, m.esp,
      m.regs .ebp, m.regs .esi, m.regs .edi]
  | .popReg r, m => (m.drop 4).setReg r (m.above 0)
  | .popSeg s, m => (m.drop 4).setSeg s (m.above 0).toUInt16
  | .popal, m => { m with regs := fun
      | .edi => m.above 0
      | .esi => m.above 4
      | .ebp => m.above 8
      -- the saved stack pointer is skipped
      | .esp => m.esp + 32
      | .ebx => m.above 16
      | .edx => m.above 20
      | .ecx => m.above 24
      | .eax => m.above 28 }
  | .movAx w, m => m.setReg .eax (joinHalves (m.regs .eax >>> 16).toUInt16 w)
  | .movSeg s, m => m.setSeg s (m.regs .eax).toUInt16
  | .addEsp n, m => m.drop n
  | .iret, m => { m.drop 12 with
      eip := m.above 0
      cs := (m.above 4).toUInt16
      eflags := m.above 8 }

def run (high : Machine → UInt16) (code : List Instr) (m : Machine) : Machine :=
  code.foldl (fun m i => exec high i m) m

/-- The flags an interrupt gate clears: trap, interrupt enable, nested task, resume, and virtual
    8086. -/
def gateFlags : UInt32 := 0x00034300

/-- **An interrupt of the processor** through a gate that blocks others, in the ring it arrives in:
    the flags and the place of the interrupted code are pushed, and the error code if there is
    one. -/
def interrupt (handler : UInt32) (selector : UInt16) (err : Option UInt32) (m : Machine) :
    Machine :=
  { m.pushAll ([m.eflags, joinHalves 0 m.cs, m.eip] ++ err.toList) with
    eip := handler
    cs := selector
    eflags := m.eflags &&& ~~~ gateFlags }

/-! ## 3. A run of pushes -/

section Pushes

variable {m : Machine}

theorem setReg_same (m : Machine) (r : Reg) (w : UInt32) : (m.setReg r w).regs r = w := by
  show Function.update m.regs r w r = w
  exact Function.update_self ..

theorem setReg_other (m : Machine) {r s : Reg} (h : s ≠ r) (w : UInt32) :
    (m.setReg r w).regs s = m.regs s := by
  show Function.update m.regs r w s = m.regs s
  exact Function.update_of_ne h ..

theorem push_esp (w : UInt32) (m : Machine) : (m.push w).esp = m.esp - 4 := by
  show Function.update m.regs .esp (m.esp - 4) .esp = m.esp - 4
  exact Function.update_self ..

theorem sub_words (a : UInt32) (n : Nat) :
    a - UInt32.ofNat (4 * (n + 1)) = a - 4 - UInt32.ofNat (4 * n) := by
  have hfour : UInt32.ofNat 4 = 4 := rfl
  rw [Nat.mul_add, UInt32.ofNat_add, hfour]
  grind

theorem pushAll_append (ws vs : List UInt32) (m : Machine) :
    m.pushAll (ws ++ vs) = (m.pushAll ws).pushAll vs := List.foldl_append ..

theorem pushAll_esp (ws : List UInt32) :
    ∀ m : Machine, (m.pushAll ws).esp = m.esp - UInt32.ofNat (4 * ws.length) := by
  induction ws with
  | nil => exact fun m => (UInt32.sub_zero m.esp).symm
  | cons w ws ih =>
    intro m
    show ((m.push w).pushAll ws).esp = _
    rw [ih, push_esp, List.length_cons, sub_words]

/-- **Pushes write one block**, the last word at its bottom. -/
theorem pushAll_mem (ws : List UInt32) : ∀ m : Machine, 4 * ws.length < 2 ^ 32 →
    (m.pushAll ws).mem =
      m.mem.write (m.esp - UInt32.ofNat (4 * ws.length)) (ws.reverse.flatMap le32) := by
  induction ws with
  | nil => exact fun m _ => rfl
  | cons w ws ih =>
    intro m h
    rw [List.length_cons] at h
    have hmem : (m.push w).mem = m.mem.write (m.esp - 4) (le32 w) := rfl
    have hlen : (ws.reverse.flatMap le32).length = 4 * ws.length := by
      rw [length_flatMap_le32, List.length_reverse]
    have hup : m.esp - 4 - UInt32.ofNat (4 * ws.length) +
        UInt32.ofNat (ws.reverse.flatMap le32).length = m.esp - 4 := by
      rw [hlen, UInt32.sub_add_cancel]
    have hsplit : write (write m.mem (m.esp - 4 - UInt32.ofNat (4 * ws.length) +
          UInt32.ofNat (ws.reverse.flatMap le32).length) (le32 w))
          (m.esp - 4 - UInt32.ofNat (4 * ws.length)) (ws.reverse.flatMap le32) =
        write m.mem (m.esp - 4 - UInt32.ofNat (4 * ws.length))
          (ws.reverse.flatMap le32 ++ le32 w) :=
      write_write_below _ _ (by rw [hlen, length_le32]; omega) (by rw [hlen]; omega)
    show ((m.push w).pushAll ws).mem = _
    rw [ih _ (by omega), push_esp, hmem, List.length_cons, sub_words, List.reverse_cons,
      List.flatMap_append, List.flatMap_singleton, ← hsplit, hup]

/-- The words of the block, from the stack pointer up. -/
theorem pushAll_above (ws : List UInt32) (m : Machine) (h : 4 * ws.length < 2 ^ 32) {i : Nat}
    (hi : i < ws.length) : (m.pushAll ws).above (4 * i) = ws.reverse.getD i 0 := by
  have hlen : (ws.reverse.flatMap le32).length = 4 * ws.length := by
    rw [length_flatMap_le32, List.length_reverse]
  unfold Machine.above
  rw [pushAll_esp, pushAll_mem ws m h]
  refine word_flatMap_le32 (fun k hk => ?_) (by rwa [List.length_reverse])
  rw [List.length_reverse] at hk
  unfold record
  rw [write_apply _ _ _ _ (by omega), dist_ofNat _ (by omega), List.getElem?_eq_getElem (by omega),
    List.getD_eq_getElem?_getD, List.getElem?_eq_getElem (by omega)]
  rfl

/-- Memory outside the block is as it was. -/
theorem pushAll_outside (ws : List UInt32) (m : Machine) (h : 4 * ws.length < 2 ^ 32) {x : UInt32}
    (hx : 4 * ws.length ≤ dist (m.esp - UInt32.ofNat (4 * ws.length)) x) :
    (m.pushAll ws).mem x = m.mem x := by
  have hlen : (ws.reverse.flatMap le32).length = 4 * ws.length := by
    rw [length_flatMap_le32, List.length_reverse]
  rw [pushAll_mem ws m h, write_apply _ _ _ _ (by omega), List.getElem?_eq_none (by omega)]
  rfl

end Pushes

theorem pushAll_eflags (ws : List UInt32) : ∀ m : Machine, (m.pushAll ws).eflags = m.eflags := by
  induction ws with
  | nil => exact fun m => rfl
  | cons w ws ih => exact fun m => ih (m.push w)

/-- Only `iret` changes the flags. -/
theorem exec_eflags {high : Machine → UInt16} {i : Instr} (h : i ≠ .iret) (m : Machine) :
    (exec high i m).eflags = m.eflags := by
  cases i with
  | iret => exact absurd rfl h
  | pushal => exact pushAll_eflags _ m
  | _ => rfl

theorem run_eflags (high : Machine → UInt16) {code : List Instr} (h : .iret ∉ code) :
    ∀ m : Machine, (run high code m).eflags = m.eflags := by
  induction code with
  | nil => exact fun m => rfl
  | cons i code ih =>
    intro m
    have hi : i ≠ .iret := fun e => h (e ▸ List.mem_cons_self)
    have hcode : .iret ∉ code := fun hin => h (List.mem_cons_of_mem i hin)
    exact (ih hcode (exec high i m)).trans (exec_eflags hi m)

theorem run_nil (high : Machine → UInt16) (m : Machine) : run high [] m = m := rfl

theorem run_cons (high : Machine → UInt16) (i : Instr) (code : List Instr) (m : Machine) :
    run high (i :: code) m = run high code (exec high i m) := rfl

theorem run_append (high : Machine → UInt16) (code code' : List Instr) (m : Machine) :
    run high (code ++ code') m = run high code' (run high code m) := List.foldl_append ..

/-! ## 4. Saving registers -/

/-- **The stack of `m'` is the one of `m` with words pushed.** -/
structure Stacked (ws : List UInt32) (m m' : Machine) : Prop where
  esp : m'.esp = (m.pushAll ws).esp
  mem : m'.mem = (m.pushAll ws).mem

/-- The same, and the registers that may still be saved are those of `m`. -/
structure Saving (ws : List UInt32) (m m' : Machine) : Prop extends Stacked ws m m' where
  regs : ∀ r, r ≠ .esp → m'.regs r = m.regs r
  segs : m'.segs = m.segs

section Saving

variable {ws : List UInt32} {m m' : Machine} {high : Machine → UInt16}

theorem Stacked.push (h : Stacked ws m m') (w : UInt32) : Stacked (ws ++ [w]) m (m'.push w) := by
  have hlast : m.pushAll (ws ++ [w]) = (m.pushAll ws).push w := pushAll_append ws [w] m
  constructor
  · rw [hlast, push_esp, push_esp, h.esp]
  · rw [hlast]
    show m'.mem.write (m'.esp - 4) (le32 w) = (m.pushAll ws).mem.write ((m.pushAll ws).esp - 4) _
    rw [h.mem, h.esp]

theorem Stacked.esp_eq (h : Stacked ws m m') : m'.esp = m.esp - UInt32.ofNat (4 * ws.length) :=
  h.esp.trans (pushAll_esp ws m)

theorem saving_nil (m : Machine) : Saving [] m m := ⟨⟨rfl, rfl⟩, fun _ _ => rfl, rfl⟩

/-- The instruction pointer, the code segment and the flags play no part. -/
theorem Saving.jump (h : Saving ws m m') (eip : UInt32) (cs : UInt16) (eflags : UInt32) :
    Saving ws m { m' with eip := eip, cs := cs, eflags := eflags } :=
  ⟨⟨h.esp, h.mem⟩, h.regs, h.segs⟩

theorem Saving.push (h : Saving ws m m') (w : UInt32) : Saving (ws ++ [w]) m (m'.push w) := by
  refine ⟨h.toStacked.push w, fun r hr => ?_, h.segs⟩
  have hother : (m'.push w).regs r = m'.regs r := Function.update_of_ne hr ..
  rw [hother, h.regs r hr]

theorem Saving.pushAll (vs : List UInt32) : ∀ {ws : List UInt32} {m' : Machine}, Saving ws m m' →
    Saving (ws ++ vs) m (m'.pushAll vs) := by
  induction vs with
  | nil =>
    intro ws m' h
    rw [List.append_nil]
    exact h
  | cons v vs ih =>
    intro ws m' h
    have hnext := ih (h.push v)
    rw [List.append_assoc] at hnext
    exact hnext

/-- A segment register is saved with some upper half. -/
theorem Saving.pushSeg (h : Saving ws m m') (s : Seg) :
    Saving (ws ++ [joinHalves (high m') (m.segs s)]) m (exec high (.pushSeg s) m') := by
  rw [← h.segs]
  exact h.push (joinHalves (high m') (m'.segs s))

theorem Saving.pushal (h : Saving ws m m') :
    Saving (ws ++ [m.regs .eax, m.regs .ecx, m.regs .edx, m.regs .ebx,
      m.esp - UInt32.ofNat (4 * ws.length), m.regs .ebp, m.regs .esi, m.regs .edi]) m
      (exec high .pushal m') := by
  rw [← h.esp_eq, ← h.regs .eax (by decide), ← h.regs .ecx (by decide), ← h.regs .edx (by decide),
    ← h.regs .ebx (by decide), ← h.regs .ebp (by decide), ← h.regs .esi (by decide),
    ← h.regs .edi (by decide)]
  exact h.pushAll _

theorem saving_interrupt (handler : UInt32) (selector : UInt16) (err : Option UInt32)
    (m : Machine) :
    Saving ([m.eflags, joinHalves 0 m.cs, m.eip] ++ err.toList) m
      (interrupt handler selector err m) :=
  ((saving_nil m).pushAll _).jump _ _ _

end Saving

/-! ## 5. Restoring registers -/

/-- **The stack pointer of `m` has come `k` bytes up a frame at `a`**, and these are the registers
    by then. -/
structure Loading (mem : Mem) (a : UInt32) (k : Nat) (regs : Reg → UInt32) (segs : Seg → UInt16)
    (m : Machine) : Prop where
  esp : m.esp = a + UInt32.ofNat k
  mem : m.mem = mem
  regs : ∀ r, r ≠ .esp → m.regs r = regs r
  segs : m.segs = segs

/-- The registers as `popal` reads them from a frame. -/
def savedRegs (mem : Mem) (a : UInt32) : Reg → UInt32
  | .edi => word (record mem a) 0
  | .esi => word (record mem a) 4
  | .ebp => word (record mem a) 8
  | .esp => word (record mem a) 12
  | .ebx => word (record mem a) 16
  | .edx => word (record mem a) 20
  | .ecx => word (record mem a) 24
  | .eax => word (record mem a) 28

section Loading

variable {mem : Mem} {a : UInt32} {k : Nat} {regs : Reg → UInt32} {segs : Seg → UInt16}
  {high : Machine → UInt16} {m : Machine}

/-- A word above the stack pointer is one of the frame. -/
theorem Loading.above (h : Loading mem a k regs segs m) (j : Nat) :
    m.above j = word (record mem a) (k + j) := by
  rw [Machine.above, h.esp, h.mem, word_record_add]

theorem Loading.drop (h : Loading mem a k regs segs m) (n : Nat) :
    Loading mem a (k + n) regs segs (m.drop (UInt32.ofNat n)) := by
  refine ⟨?_, h.mem, fun r hr => ?_, h.segs⟩
  · have hup : (m.drop (UInt32.ofNat n)).esp = m.esp + UInt32.ofNat n := setReg_same m .esp _
    rw [hup, h.esp, UInt32.add_assoc, ← UInt32.ofNat_add]
  · have hother : (m.drop (UInt32.ofNat n)).regs r = m.regs r := Function.update_of_ne hr ..
    rw [hother, h.regs r hr]

theorem Loading.popSeg (h : Loading mem a k regs segs m) (s : Seg) :
    Loading mem a (k + 4) regs (Function.update segs s (half (record mem a) k))
      (exec high (.popSeg s) m) := by
  have hdrop : Loading mem a (k + 4) regs segs (m.drop 4) := h.drop 4
  refine ⟨hdrop.esp, hdrop.mem, hdrop.regs, ?_⟩
  show Function.update (m.drop 4).segs s (m.above 0).toUInt16 = _
  rw [hdrop.segs, h.above, half_eq_word]
  rfl

theorem Loading.popal (h : Loading mem a 0 regs segs m) :
    Loading mem a 32 (savedRegs mem a) segs (exec high .popal m) := by
  have hword : ∀ j, m.above j = word (record mem a) j := fun j =>
    (h.above j).trans (congrArg _ (Nat.zero_add j))
  refine ⟨?_, h.mem, fun r hr => ?_, h.segs⟩
  · show m.esp + 32 = _
    rw [h.esp, UInt32.add_assoc]
    rfl
  · cases r with
    | esp => exact absurd rfl hr
    | edi => exact hword 0
    | esi => exact hword 4
    | ebp => exact hword 8
    | ebx => exact hword 16
    | edx => exact hword 20
    | ecx => exact hword 24
    | eax => exact hword 28

/-- **`iret` goes back to the place on top of the stack.** -/
theorem Loading.iret (h : Loading mem a k regs segs m) :
    exec high .iret m = {
      regs := Function.update regs .esp (a + UInt32.ofNat (k + 12))
      segs := segs
      eip := word (record mem a) k
      cs := half (record mem a) (k + 4)
      eflags := word (record mem a) (k + 8)
      mem := mem } := by
  have hdrop : Loading mem a (k + 12) regs segs (m.drop 12) := h.drop 12
  have hregs : (m.drop 12).regs = Function.update regs .esp (a + UInt32.ofNat (k + 12)) := by
    funext r
    by_cases hr : r = .esp
    · rw [hr, Function.update_self]
      exact hdrop.esp
    · rw [Function.update_of_ne hr]
      exact hdrop.regs r hr
  show Machine.mk (m.drop 12).regs (m.drop 12).segs (m.above 4).toUInt16 (m.above 0) (m.above 8)
    (m.drop 12).mem = _
  rw [h.above, h.above, h.above, half_eq_word, hregs, hdrop.segs, hdrop.mem]
  rfl

end Loading

end X86
