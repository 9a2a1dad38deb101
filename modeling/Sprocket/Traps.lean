/-
  File:      Sprocket/Traps.lean
  Subject:   TRAPS ARE INVISIBLE: what `vectors.S` and `trapasm.S` save, they restore.

  A trap goes through the gate of its vector to the code of the vector, which pushes what is missing
  to make all frames alike; `alltraps` pushes the registers and calls `trap` with the address of the
  frame. Behind the call the registers are popped and `iret` goes back.

  * `enter_frame` -- the structure `trap` is given is the machine that was interrupted;
  * `leave_eq` -- what `trapret` makes of the frame it finds;
  * `Exec` -- a run of some code with traps at any place, and traps in the handlers of these;
  * `traps_invisible` -- to the code such a run is one without traps, in which memory outside its
    stack changes now and then.

  The kernel runs in one ring, so the stack does not change with a trap.
-/
import Sprocket.Lib.X86

namespace Sprocket.Traps

open X86 Mem Bytes

/-! ## 1. The code -/

/-- `vectors.S`: the code of a vector up to its jump to `alltraps`. The ones without a zero are
    those for which the processor pushes an error code. -/
def vectorStub (n : UInt8) : List Instr :=
  (if n = 8 ∨ 10 ≤ n ∧ n ≤ 14 ∨ n = 17 then [] else [.pushImm 0]) ++ [.pushImm n.toUInt32]

/-- `Segment::KCode` and `SEG_KDATA`. -/
abbrev segKcode : UInt16 := 1
abbrev segKdata : UInt16 := 2

/-- "Build trap frame." -/
def saveAll : List Instr := [.pushSeg .ds, .pushSeg .es, .pushSeg .fs, .pushSeg .gs, .pushal]

/-- "Set up data and per-cpu segments." -/
def loadSegs : List Instr := [.movAx (segKdata <<< 3), .movSeg .ds, .movSeg .es]

/-- `alltraps`, up to its call of `trap`. -/
def alltraps : List Instr := saveAll ++ loadSegs ++ [.pushReg .esp]

/-- Behind the call, and `trapret`. -/
def trapret : List Instr := [
  .addEsp 4,
  .popal, .popSeg .gs, .popSeg .fs, .popSeg .es, .popSeg .ds,
  .addEsp 8, .iret]

/-- Where the linker has put `vectors`, `trap`, and the instruction behind the call of it. -/
structure Linked where
  vectors : UInt8 → UInt32
  trap : UInt32
  behindCall : UInt32

/-- The vectors for which the processor pushes an error code. -/
def hasErrorCode (n : UInt8) : Prop := n = 8 ∨ 10 ≤ n ∧ n ≤ 14 ∨ n = 17

instance (n : UInt8) : Decidable (hasErrorCode n) := inferInstanceAs (Decidable (_ ∨ _))

/-- A trap that arrives: its vector, and the error code if its vector has one. -/
structure Arrival where
  vector : UInt8
  err : UInt32

def Arrival.errorCode (t : Arrival) : Option UInt32 :=
  if hasErrorCode t.vector then some t.err else none

/-- **From the interrupted code to the first instruction of `trap`**: the gate `trap_vector_init`
    has written for the vector, the vector's code, `alltraps` and its call. -/
def enter (L : Linked) (high : Machine → UInt16) (t : Arrival) (m : Machine) : Machine :=
  { ((run high (vectorStub t.vector ++ alltraps)
      (interrupt (L.vectors t.vector) (segKcode <<< 3) t.errorCode m)).push L.behindCall) with
    eip := L.trap }

/-- **From the return of `trap` to the interrupted code.** -/
def leave (high : Machine → UInt16) (m : Machine) : Machine := run high trapret m

/-- The words on the stack when `trap` begins, in the order they were pushed. `h` are the upper
    halves of the segment registers. -/
def frameWords (L : Linked) (t : Arrival) (h : Seg → UInt16) (m : Machine) : List UInt32 := [
  m.eflags, joinHalves 0 m.cs, m.eip, t.errorCode.getD 0, t.vector.toUInt32,
  joinHalves (h .ds) (m.segs .ds), joinHalves (h .es) (m.segs .es),
  joinHalves (h .fs) (m.segs .fs), joinHalves (h .gs) (m.segs .gs),
  m.regs .eax, m.regs .ecx, m.regs .edx, m.regs .ebx, m.esp - 36, m.regs .ebp, m.regs .esi,
  m.regs .edi,
  m.esp - 68, L.behindCall]

/-- A half word for each segment register. -/
def perSeg (ds es fs gs : UInt16) : Seg → UInt16
  | .ds => ds
  | .es => es
  | .fs => fs
  | .gs => gs

section Enter

variable {L : Linked} {high : Machine → UInt16} {t : Arrival} {m : Machine}

/-- The vector's code makes the frames of all vectors alike. -/
theorem saving_vector :
    Saving [m.eflags, joinHalves 0 m.cs, m.eip, t.errorCode.getD 0, t.vector.toUInt32] m
      (run high (vectorStub t.vector)
        (interrupt (L.vectors t.vector) (segKcode <<< 3) t.errorCode m)) := by
  have hin := saving_interrupt (L.vectors t.vector) (segKcode <<< 3) t.errorCode m
  by_cases h : hasErrorCode t.vector
  · have hstub : vectorStub t.vector = [.pushImm t.vector.toUInt32] := by
      unfold vectorStub
      rw [if_pos (show _ ∨ _ from h)]
      rfl
    have herr : t.errorCode = some t.err := if_pos h
    rw [hstub]
    rw [herr] at hin ⊢
    exact hin.push t.vector.toUInt32
  · have hstub : vectorStub t.vector = [.pushImm 0, .pushImm t.vector.toUInt32] := by
      unfold vectorStub
      rw [if_neg (show ¬ (_ ∨ _) from h)]
      rfl
    have herr : t.errorCode = none := if_neg h
    rw [hstub]
    rw [herr] at hin ⊢
    exact (hin.push 0).push t.vector.toUInt32

/-- The registers are saved above the segment registers. -/
theorem saving_all (high : Machine → UInt16) {ws : List UInt32} {m' : Machine}
    (h0 : Saving ws m m') :
    ∃ h : Seg → UInt16, Saving (ws ++ [joinHalves (h .ds) (m.segs .ds)] ++
      [joinHalves (h .es) (m.segs .es)] ++ [joinHalves (h .fs) (m.segs .fs)] ++
      [joinHalves (h .gs) (m.segs .gs)] ++ [m.regs .eax, m.regs .ecx, m.regs .edx, m.regs .ebx,
        m.esp - UInt32.ofNat (4 * (ws.length + 4)), m.regs .ebp, m.regs .esi, m.regs .edi])
      m (run high saveAll m') := by
  obtain ⟨m1, hm1⟩ : ∃ m1, m1 = exec high (.pushSeg .ds) m' := ⟨_, rfl⟩
  have h1 : Saving _ m m1 := hm1 ▸ h0.pushSeg .ds
  obtain ⟨m2, hm2⟩ : ∃ m2, m2 = exec high (.pushSeg .es) m1 := ⟨_, rfl⟩
  have h2 : Saving _ m m2 := hm2 ▸ h1.pushSeg .es
  obtain ⟨m3, hm3⟩ : ∃ m3, m3 = exec high (.pushSeg .fs) m2 := ⟨_, rfl⟩
  have h3 : Saving _ m m3 := hm3 ▸ h2.pushSeg .fs
  obtain ⟨m4, hm4⟩ : ∃ m4, m4 = exec high (.pushSeg .gs) m3 := ⟨_, rfl⟩
  have h4 : Saving _ m m4 := hm4 ▸ h3.pushSeg .gs
  have h5 : Saving _ m (exec high .pushal m4) := h4.pushal
  have hrun : run high saveAll m' = exec high .pushal m4 := by
    rw [saveAll, run_cons, ← hm1, run_cons, ← hm2, run_cons, ← hm3, run_cons, ← hm4, run_cons,
      run_nil]
  refine ⟨perSeg (high m') (high m1) (high m2) (high m3), ?_⟩
  rw [hrun]
  simpa only [List.length_append, List.length_singleton, perSeg] using h5

/-- The segment registers of the kernel are loaded when those of the interrupted code are saved. -/
theorem loadSegs_eq (high : Machine → UInt16) (m : Machine) :
    (run high loadSegs m).esp = m.esp ∧ (run high loadSegs m).mem = m.mem ∧
      (run high loadSegs m).segs .ds = segKdata <<< 3 ∧
      (run high loadSegs m).segs .es = segKdata <<< 3 := by
  obtain ⟨m1, hm1⟩ : ∃ m1, m1 = exec high (.movAx (segKdata <<< 3)) m := ⟨_, rfl⟩
  have hax : (m1.regs .eax).toUInt16 = segKdata <<< 3 := by
    rw [hm1]
    exact (congrArg _ (setReg_same m .eax _)).trans (toUInt16_joinHalves _ _)
  have hrun : run high loadSegs m = exec high (.movSeg .es) (exec high (.movSeg .ds) m1) := by
    rw [loadSegs, run_cons, ← hm1, run_cons, run_cons, run_nil]
  rw [hrun]
  refine ⟨?_, ?_, ?_, ?_⟩
  · show m1.esp = m.esp
    rw [hm1]
    exact setReg_other m (by decide) _
  · show m1.mem = m.mem
    rw [hm1]
    rfl
  · exact hax
  · exact hax

/-- **What `trap` finds on the stack.** -/
theorem enter_stacked : ∃ h : Seg → UInt16, Stacked (frameWords L t h m) m (enter L high t m) := by
  obtain ⟨m1, hm1⟩ : ∃ m1, m1 = run high (vectorStub t.vector)
    (interrupt (L.vectors t.vector) (segKcode <<< 3) t.errorCode m) := ⟨_, rfl⟩
  obtain ⟨h, hsaved⟩ := saving_all high (hm1 ▸ saving_vector : Saving _ m m1)
  obtain ⟨m2, hm2⟩ : ∃ m2, m2 = run high saveAll m1 := ⟨_, rfl⟩
  rw [← hm2] at hsaved
  obtain ⟨hesp, hmem, _⟩ := loadSegs_eq high m2
  obtain ⟨m3, hm3⟩ : ∃ m3, m3 = run high loadSegs m2 := ⟨_, rfl⟩
  rw [← hm3] at hesp hmem
  have hloaded : Stacked _ m m3 := ⟨hesp.trans hsaved.esp, hmem.trans hsaved.mem⟩
  have hframe : m3.esp = m.esp - 68 := hloaded.esp_eq
  have hcall := (hloaded.push m3.esp).push L.behindCall
  have hrun : run high (vectorStub t.vector ++ alltraps)
      (interrupt (L.vectors t.vector) (segKcode <<< 3) t.errorCode m) = m3.push m3.esp := by
    rw [run_append, ← hm1, alltraps, run_append, run_append, ← hm2, ← hm3]
    rfl
  rw [hframe] at hcall hrun
  refine ⟨h, ?_⟩
  rw [enter, hrun]
  exact ⟨hcall.esp, hcall.mem⟩

/-- The way into `trap` writes 76 bytes below the stack pointer. -/
theorem enter_outside {x : UInt32} (hx : 76 ≤ dist (m.esp - 76) x) :
    (enter L high t m).mem x = m.mem x := by
  obtain ⟨h, hs⟩ : ∃ h, Stacked (frameWords L t h m) m (enter L high t m) := enter_stacked
  rw [hs.mem]
  exact pushAll_outside (frameWords L t h m) m (show 4 * 19 < 2 ^ 32 by decide) hx

/-- `trap` runs on the kernel's data, with interrupts blocked. -/
theorem enter_mode : (enter L high t m).segs .ds = segKdata <<< 3 ∧
    (enter L high t m).segs .es = segKdata <<< 3 ∧
    (enter L high t m).eflags = m.eflags &&& ~~~ gateFlags := by
  obtain ⟨m1, hm1⟩ : ∃ m1, m1 = run high (vectorStub t.vector ++ saveAll)
    (interrupt (L.vectors t.vector) (segKcode <<< 3) t.errorCode m) := ⟨_, rfl⟩
  obtain ⟨_, _, hds, hes⟩ := loadSegs_eq high m1
  have hrun : run high (vectorStub t.vector ++ alltraps)
      (interrupt (L.vectors t.vector) (segKcode <<< 3) t.errorCode m) =
      exec high (.pushReg .esp) (run high loadSegs m1) := by
    rw [hm1, alltraps, ← List.append_assoc, ← List.append_assoc, run_append, run_append]
    rfl
  have hcode : Instr.iret ∉ vectorStub t.vector ++ alltraps := by
    unfold vectorStub
    split <;> simp [alltraps, saveAll, loadSegs]
  refine ⟨?_, ?_, ?_⟩
  · rw [enter, hrun]
    exact hds
  · rw [enter, hrun]
    exact hes
  · exact run_eflags high hcode
      (interrupt (L.vectors t.vector) (segKcode <<< 3) t.errorCode m)

end Enter

/-! ## 2. The trap frame -/

/-- `TrapFrame`, without its padding and the two fields that are there only when the ring
    changes. -/
structure TrapFrame where
  edi : UInt32
  esi : UInt32
  ebp : UInt32
  oesp : UInt32
  ebx : UInt32
  edx : UInt32
  ecx : UInt32
  eax : UInt32
  gs : UInt16
  fs : UInt16
  es : UInt16
  ds : UInt16
  trapno : UInt8
  err : UInt32
  eip : UInt32
  cs : UInt16
  eflags : UInt32

/-- The structure in memory, by the layout of `#[repr(C)]`. -/
def TrapFrame.read (mem : Mem) (a : UInt32) : TrapFrame where
  edi := word (record mem a) 0
  esi := word (record mem a) 4
  ebp := word (record mem a) 8
  oesp := word (record mem a) 12
  ebx := word (record mem a) 16
  edx := word (record mem a) 20
  ecx := word (record mem a) 24
  eax := word (record mem a) 28
  gs := half (record mem a) 32
  fs := half (record mem a) 36
  es := half (record mem a) 40
  ds := half (record mem a) 44
  trapno := record mem a 48
  err := word (record mem a) 52
  eip := word (record mem a) 56
  cs := half (record mem a) 60
  eflags := word (record mem a) 64

/-- The frame of a trap that interrupts `m`. -/
def TrapFrame.of (t : Arrival) (m : Machine) : TrapFrame where
  edi := m.regs .edi
  esi := m.regs .esi
  ebp := m.regs .ebp
  oesp := m.esp - 36
  ebx := m.regs .ebx
  edx := m.regs .edx
  ecx := m.regs .ecx
  eax := m.regs .eax
  gs := m.segs .gs
  fs := m.segs .fs
  es := m.segs .es
  ds := m.segs .ds
  trapno := t.vector
  err := t.errorCode.getD 0
  eip := m.eip
  cs := m.cs
  eflags := m.eflags

/-- The machine a frame at address `a` stands for. -/
def TrapFrame.resume (f : TrapFrame) (a : UInt32) (mem : Mem) : Machine where
  regs
    | .edi => f.edi
    | .esi => f.esi
    | .ebp => f.ebp
    | .esp => a + 68
    | .ebx => f.ebx
    | .edx => f.edx
    | .ecx => f.ecx
    | .eax => f.eax
  segs
    | .gs => f.gs
    | .fs => f.fs
    | .es => f.es
    | .ds => f.ds
  cs := f.cs
  eip := f.eip
  eflags := f.eflags
  mem := mem

section Frame

variable {L : Linked} {high : Machine → UInt16} {t : Arrival} {m : Machine}

theorem read_congr {mem mem' : Mem} {a : UInt32}
    (h : ∀ k < 68, mem' (a + UInt32.ofNat k) = mem (a + UInt32.ofNat k)) :
    TrapFrame.read mem' a = TrapFrame.read mem a := by
  have hword : ∀ k, k + 4 ≤ 68 → word (record mem' a) k = word (record mem a) k := fun k hk =>
    word_congr (n := 68) h hk
  have hhalf : ∀ k, k + 2 ≤ 68 → half (record mem' a) k = half (record mem a) k := fun k hk =>
    half_congr (n := 68) h hk
  have hbyte : record mem' a 48 = record mem a 48 := h 48 (by decide)
  unfold TrapFrame.read
  rw [hword 0 (by decide), hword 4 (by decide), hword 8 (by decide), hword 12 (by decide),
    hword 16 (by decide), hword 20 (by decide), hword 24 (by decide), hword 28 (by decide),
    hhalf 32 (by decide), hhalf 36 (by decide), hhalf 40 (by decide), hhalf 44 (by decide), hbyte,
    hword 52 (by decide), hword 56 (by decide), hhalf 60 (by decide), hword 64 (by decide)]

/-- A frame by its seventeen words. -/
def TrapFrame.ofWords (ws : List UInt32) : TrapFrame where
  edi := ws.getD 0 0
  esi := ws.getD 1 0
  ebp := ws.getD 2 0
  oesp := ws.getD 3 0
  ebx := ws.getD 4 0
  edx := ws.getD 5 0
  ecx := ws.getD 6 0
  eax := ws.getD 7 0
  gs := (ws.getD 8 0).toUInt16
  fs := (ws.getD 9 0).toUInt16
  es := (ws.getD 10 0).toUInt16
  ds := (ws.getD 11 0).toUInt16
  trapno := (ws.getD 12 0).toUInt8
  err := ws.getD 13 0
  eip := ws.getD 14 0
  cs := (ws.getD 15 0).toUInt16
  eflags := ws.getD 16 0

theorem read_of_words {mem : Mem} {a : UInt32} {ws : List UInt32}
    (h : ∀ i, i < 17 → word (record mem a) (4 * i) = ws.getD i 0) :
    TrapFrame.read mem a = TrapFrame.ofWords ws := by
  have hhalf : ∀ i, i < 17 → half (record mem a) (4 * i) = (ws.getD i 0).toUInt16 := by
    intro i hi
    rw [half_eq_word, h i hi]
  have hbyte : record mem a (4 * 12) = (ws.getD 12 0).toUInt8 :=
    (byte_eq_word (record mem a) (4 * 12)).trans (congrArg UInt32.toUInt8 (h 12 (by decide)))
  unfold TrapFrame.read TrapFrame.ofWords
  congr 1
  · exact h 0 (by decide)
  · exact h 1 (by decide)
  · exact h 2 (by decide)
  · exact h 3 (by decide)
  · exact h 4 (by decide)
  · exact h 5 (by decide)
  · exact h 6 (by decide)
  · exact h 7 (by decide)
  · exact hhalf 8 (by decide)
  · exact hhalf 9 (by decide)
  · exact hhalf 10 (by decide)
  · exact hhalf 11 (by decide)
  · exact h 13 (by decide)
  · exact h 14 (by decide)
  · exact hhalf 15 (by decide)
  · exact h 16 (by decide)

/-- The words of the frame, from its address up. -/
theorem ofWords_frame (h : Seg → UInt16) :
    TrapFrame.ofWords ((frameWords L t h m).reverse.drop 2) = TrapFrame.of t m := by
  simp only [frameWords, List.reverse_cons, List.reverse_nil, List.nil_append, List.cons_append,
    List.drop_succ_cons, List.drop_zero, TrapFrame.ofWords, List.getD_cons_zero,
    List.getD_cons_succ, toUInt16_joinHalves, UInt8.toUInt8_toUInt32]
  rfl

/-- **`trap` is given the interrupted machine.** -/
theorem enter_frame : TrapFrame.read (enter L high t m).mem (m.esp - 68) = TrapFrame.of t m := by
  obtain ⟨h, hs⟩ : ∃ h, Stacked (frameWords L t h m) m (enter L high t m) := enter_stacked
  rw [← ofWords_frame (L := L) h, hs.mem]
  refine read_of_words fun i hi => ?_
  have hbase : m.esp - 68 = m.esp - UInt32.ofNat (4 * 19) + UInt32.ofNat 8 := by
    have e1 : UInt32.ofNat (4 * 19) = 76 := rfl
    have e2 : UInt32.ofNat 8 = 8 := rfl
    rw [e1, e2]
    grind
  have hplace : 8 + 4 * i = 4 * (2 + i) := by omega
  have habove : (m.pushAll (frameWords L t h m)).above (4 * (2 + i)) =
      (frameWords L t h m).reverse.getD (2 + i) 0 :=
    pushAll_above (frameWords L t h m) m (show 4 * 19 < 2 ^ 32 by decide)
      (show 2 + i < 19 by omega)
  rw [Machine.above, pushAll_esp] at habove
  rw [hbase, word_record_add, hplace, List.getD_eq_getElem?_getD, List.getElem?_drop,
    ← List.getD_eq_getElem?_getD]
  exact habove

/-- The return address and the argument of `trap`. -/
theorem enter_top : (enter L high t m).above 0 = L.behindCall ∧
    (enter L high t m).above 4 = m.esp - 68 := by
  obtain ⟨h, hs⟩ : ∃ h, Stacked (frameWords L t h m) m (enter L high t m) := enter_stacked
  have hword : ∀ i, i < 19 → (enter L high t m).above (4 * i) =
      (frameWords L t h m).reverse.getD i 0 := by
    intro i hi
    have habove : (m.pushAll (frameWords L t h m)).above (4 * i) = _ :=
      pushAll_above (frameWords L t h m) m (show 4 * 19 < 2 ^ 32 by decide) hi
    rw [← habove, Machine.above, Machine.above, hs.mem, hs.esp]
  exact ⟨hword 0 (by decide), hword 1 (by decide)⟩

/-- **`trapret` loads the frame**, and leaves memory alone. -/
theorem leave_eq {a : UInt32} (h : m.esp + 4 = a) :
    leave high m = (TrapFrame.read m.mem a).resume a m.mem := by
  have h1 : Loading m.mem a 0 m.regs m.segs (exec high (.addEsp 4) m) := by
    refine ⟨?_, rfl, fun r hr => ?_, rfl⟩
    · have hup : (exec high (.addEsp 4) m).esp = m.esp + 4 := setReg_same m .esp _
      rw [hup, h]
      exact (UInt32.add_zero a).symm
    · exact Function.update_of_ne hr ..
  have h7 : Loading m.mem a 56 (savedRegs m.mem a) _
      (run high (trapret.take 7) m) :=
    ((((h1.popal.popSeg .gs).popSeg .fs).popSeg .es).popSeg .ds).drop 8
  show exec high .iret (run high (trapret.take 7) m) = _
  rw [h7.iret]
  unfold TrapFrame.resume TrapFrame.read
  congr 1
  · funext r
    cases r <;> rfl
  · funext s
    cases s <;> rfl

/-- A frame taken back where it was made. -/
theorem resume_of (t : Arrival) (m : Machine) (mem : Mem) :
    (TrapFrame.of t m).resume (m.esp - 68) mem = { m with mem := mem } := by
  have hregs : ((TrapFrame.of t m).resume (m.esp - 68) mem).regs = m.regs := by
    funext r
    cases r with
    | esp =>
      show m.esp - 68 + 68 = m.esp
      exact UInt32.sub_add_cancel _ _
    | _ => rfl
  have hsegs : ((TrapFrame.of t m).resume (m.esp - 68) mem).segs = m.segs := by
    funext s
    cases s <;> rfl
  show Machine.mk ((TrapFrame.of t m).resume (m.esp - 68) mem).regs
    ((TrapFrame.of t m).resume (m.esp - 68) mem).segs m.cs m.eip m.eflags mem = _
  rw [hregs, hsegs]

end Frame

/-! The vectors `trap` knows. -/

/-- `Interrupt` -/
inductive Interrupt where
  | divError | debugException | nonMaskableInt | breakpoint | overflow | boundsCheck | illegalOp
  | deviceNotAvailable | doubleFault | coproc | invalidTss | segmentNotPresent | stackException
  | genProtectFault | pageFault | reserved | floatingPointErr | alignmentCheck | machineCheck
  | simdErr | syscall | timerInt | keyboardInt | com1Int | networkInt | ideInt | errorInt
  | spuriousInt
  deriving DecidableEq, Repr

namespace Interrupt

abbrev tIrq0 : UInt8 := 32
abbrev timerIrq : UInt8 := 0
abbrev com1Irq : UInt8 := 4
abbrev nicIrq : UInt8 := 0xb

/-- The discriminants. -/
def toByte : Interrupt → UInt8
  | divError => 0
  | debugException => 1
  | nonMaskableInt => 2
  | breakpoint => 3
  | overflow => 4
  | boundsCheck => 5
  | illegalOp => 6
  | deviceNotAvailable => 7
  | doubleFault => 8
  | coproc => 9
  | invalidTss => 10
  | segmentNotPresent => 11
  | stackException => 12
  | genProtectFault => 13
  | pageFault => 14
  | reserved => 15
  | floatingPointErr => 16
  | alignmentCheck => 17
  | machineCheck => 18
  | simdErr => 19
  | syscall => 64
  | timerInt => tIrq0 + timerIrq
  | keyboardInt => tIrq0 + 1
  | com1Int => tIrq0 + com1Irq
  | networkInt => tIrq0 + nicIrq
  | ideInt => tIrq0 + 14
  | errorInt => tIrq0 + 19
  | spuriousInt => tIrq0 + 31

def all : List Interrupt := [
  divError, debugException, nonMaskableInt, breakpoint, overflow, boundsCheck, illegalOp,
  deviceNotAvailable, doubleFault, coproc, invalidTss, segmentNotPresent, stackException,
  genProtectFault, pageFault, reserved, floatingPointErr, alignmentCheck, machineCheck, simdErr,
  syscall, timerInt, keyboardInt, com1Int, networkInt, ideInt, errorInt, spuriousInt]

/-- The field `trapno` read as an `Interrupt`: a byte that is no discriminant is no value of the
    type, and the match on it in `trap` is undefined. -/
def ofByte (b : UInt8) : Option Interrupt := all.find? fun t => t.toByte == b

end Interrupt

/-! ## 3. Runs with traps -/

/-- The memory of the stack. -/
structure Stack where
  lo : UInt32
  hi : UInt32

/-- The stack from `b` up is the same. -/
def Stack.SameFrom (S : Stack) (b : UInt32) (mem mem' : Mem) : Prop :=
  ∀ x : UInt32, b.toNat ≤ x.toNat → x.toNat < S.hi.toNat → mem' x = mem x

/-- **What code owes to its callers**, when its part of the stack begins below `b`: it leaves theirs
    alone and stays in its own. -/
structure Disciplined (S : Stack) (b : UInt32) (m m' : Machine) : Prop where
  keeps : S.SameFrom b m.mem m'.mem
  low : m'.esp.toNat ≤ b.toNat

/-- **A run with traps.** The steps of the code itself are `own`; between any two of them a trap may
    arrive, and its handler runs in the same way. The handler's part of the stack begins below the
    frame; it returns behind the call, with the stack pointer above its return address. -/
inductive Exec (L : Linked) (high : Machine → UInt16) (S : Stack)
    (own : Machine → Machine → Prop) : UInt32 → Machine → Machine → Prop where
  | done (b : UInt32) (m : Machine) : Exec L high S own b m m
  | step {b : UInt32} {m m1 m2 : Machine} (h : Exec L high S own b m m1) (hown : own m1 m2)
      (hd : Disciplined S b m1 m2) : Exec L high S own b m m2
  | trap {b : UInt32} {m m1 m2 : Machine} (t : Arrival) (h : Exec L high S own b m m1)
      (hroom : S.lo.toNat + 76 ≤ m1.esp.toNat)
      (handler : Exec L high S own (m1.esp - 68) (enter L high t m1) m2)
      (hesp : m2.esp = m1.esp - 72) (heip : m2.eip = L.behindCall) :
      Exec L high S own b m (leave high m2)

/-- To the code nothing has happened: only memory outside its part of the stack has changed. -/
structure Unseen (S : Stack) (m m' : Machine) : Prop where
  regs : m'.regs = m.regs
  segs : m'.segs = m.segs
  cs : m'.cs = m.cs
  eip : m'.eip = m.eip
  eflags : m'.eflags = m.eflags
  stack : S.SameFrom m.esp m.mem m'.mem

/-- **A run without traps**, in which memory outside the stack may change between the steps. -/
inductive Quiet (S : Stack) (own : Machine → Machine → Prop) (b : UInt32) :
    Machine → Machine → Prop where
  | done (m : Machine) : Quiet S own b m m
  | step {m m1 m2 : Machine} (h : Quiet S own b m m1) (hown : own m1 m2)
      (hd : Disciplined S b m1 m2) : Quiet S own b m m2
  | unseen {m m1 m2 : Machine} (h : Quiet S own b m m1) (hu : Unseen S m1 m2) :
      Quiet S own b m m2

section Runs

variable {L : Linked} {high : Machine → UInt16} {S : Stack} {own : Machine → Machine → Prop}

theorem Stack.SameFrom.trans {b : UInt32} {mem mem' mem'' : Mem} (h : S.SameFrom b mem mem')
    (h' : S.SameFrom b mem' mem'') : S.SameFrom b mem mem'' :=
  fun x h1 h2 => (h' x h1 h2).trans (h x h1 h2)

theorem Stack.SameFrom.mono {b c : UInt32} {mem mem' : Mem} (h : S.SameFrom b mem mem')
    (hbc : b.toNat ≤ c.toNat) : S.SameFrom c mem mem' :=
  fun x h1 h2 => h x (Nat.le_trans hbc h1) h2

/-- With room on the stack, the rest of it is as it was. -/
theorem enter_keeps (t : Arrival) {m : Machine} (hroom : 76 ≤ m.esp.toNat) {x : UInt32}
    (hx : m.esp.toNat ≤ x.toNat ∨ x.toNat < m.esp.toNat - 76) :
    (enter L high t m).mem x = m.mem x := by
  have hsub : (m.esp - 76).toNat = m.esp.toNat - 76 := UInt32.toNat_sub_of_le _ _ hroom
  have hlt := m.esp.toNat_lt
  refine enter_outside ?_
  rw [dist_eq, hsub]
  split <;> omega

/-- **One trap**: the handler has kept the frame, so the machine is as it was. -/
theorem leave_unseen (t : Arrival) {m m' : Machine} (hroom : 76 ≤ m.esp.toNat)
    (htop : m.esp.toNat ≤ S.hi.toNat)
    (hkeeps : S.SameFrom (m.esp - 68) (enter L high t m).mem m'.mem)
    (hesp : m'.esp = m.esp - 72) : Unseen S m (leave high m') := by
  have hsub : (m.esp - 68).toNat = m.esp.toNat - 68 := UInt32.toNat_sub_of_le _ _ (by
    show 68 ≤ m.esp.toNat
    omega)
  have hlt := m.esp.toNat_lt
  have hframe : TrapFrame.read m'.mem (m.esp - 68) = TrapFrame.of t m := by
    refine (read_congr fun k hk => ?_).trans (enter_frame : TrapFrame.read
      (enter L high t m).mem (m.esp - 68) = TrapFrame.of t m)
    have hplace : (m.esp - 68 + UInt32.ofNat k).toNat = m.esp.toNat - 68 + k := by
      rw [UInt32.toNat_add, hsub, UInt32.toNat_ofNat_of_lt' (by simp only [UInt32.size]; omega)]
      omega
    exact hkeeps _ (by omega) (by omega)
  have hback : leave high m' = { m with mem := m'.mem } := by
    have hat : m'.esp + 4 = m.esp - 68 := by
      rw [hesp]
      grind
    rw [leave_eq hat, hframe, resume_of]
  rw [hback]
  refine ⟨rfl, rfl, rfl, rfl, rfl, fun x h1 h2 => ?_⟩
  exact (hkeeps x (by omega) h2).trans (enter_keeps t hroom (Or.inl h1))

/-- **Traps are invisible.** All code, handlers included, leaves its callers' part of the stack
    alone (`Disciplined`). Then a run with traps, nested in any way, is to the code a run without:
    the registers, the flags and the stack are as the code has left them, after every trap. -/
theorem traps_invisible {b : UInt32} {m m' : Machine} (h : Exec L high S own b m m')
    (hb : b.toNat ≤ S.hi.toNat) (hlow : m.esp.toNat ≤ b.toNat) :
    Quiet S own b m m' ∧ Disciplined S b m m' := by
  induction h with
  | done b m => exact ⟨.done m, fun _ _ _ => rfl, hlow⟩
  | step _ hown hd ih =>
    obtain ⟨hq, hdis⟩ := ih hb hlow
    exact ⟨hq.step hown hd, hdis.keeps.trans hd.keeps, hd.low⟩
  | @trap b m m1 m2 t _ hroom _ hesp _ ih ihh =>
    obtain ⟨hq, hdis⟩ := ih hb hlow
    have hlow1 := hdis.low
    have h76 : 76 ≤ m1.esp.toNat := Nat.le_trans (Nat.le_add_left _ _) hroom
    have hsub : (m1.esp - 68).toNat = m1.esp.toNat - 68 := UInt32.toNat_sub_of_le _ _ (by
      show 68 ≤ m1.esp.toNat
      omega)
    have henter : (enter L high t m1).esp.toNat = m1.esp.toNat - 76 := by
      obtain ⟨h, hs⟩ : ∃ h, Stacked (frameWords L t h m1) m1 (enter L high t m1) := enter_stacked
      rw [hs.esp_eq]
      exact UInt32.toNat_sub_of_le _ _ h76
    -- the handler keeps its frame, by the induction on its own run
    obtain ⟨_, hhandler⟩ := ihh (by omega) (by omega)
    have hunseen : Unseen S m1 (leave high m2) :=
      leave_unseen t h76 (Nat.le_trans hlow1 hb) hhandler.keeps hesp
    refine ⟨hq.unseen hunseen, hdis.keeps.trans (hunseen.stack.mono hlow1), ?_⟩
    rw [Machine.esp, hunseen.regs]
    exact hlow1

/-- **`trap` is called with the machine that was interrupted**, for every vector: its argument is
    the address of a `TrapFrame` with the vector, the error code and all registers. It runs on the
    kernel's data with interrupts blocked, and only 76 bytes below the stack pointer have been
    written. -/
theorem trap_given_interrupted (t : Arrival) (m : Machine) :
    (enter L high t m).eip = L.trap ∧ (enter L high t m).above 0 = L.behindCall ∧
    TrapFrame.read (enter L high t m).mem ((enter L high t m).above 4) = TrapFrame.of t m ∧
    (enter L high t m).segs .ds = segKdata <<< 3 ∧ (enter L high t m).segs .es = segKdata <<< 3 ∧
    (enter L high t m).eflags &&& 0x200 = 0 ∧
    ∀ x, 76 ≤ dist (m.esp - 76) x → (enter L high t m).mem x = m.mem x := by
  refine ⟨rfl, enter_top.1, ?_, enter_mode.1, enter_mode.2.1, ?_, fun x hx => enter_outside hx⟩
  · rw [enter_top.2]
    exact enter_frame
  · have hoff : ~~~ gateFlags &&& 0x200 = 0 := by decide
    rw [enter_mode.2.2, UInt32.and_assoc, hoff, UInt32.and_zero]

end Runs

/-! A timer interrupt whose handler returns at once. -/

def linkedAt : Linked := ⟨fun _ => 0x80100000, 0x80101000, 0x80100800⟩

def kernelStack : Stack := ⟨0x80107000, 0x80108000⟩

def idle : Machine where
  regs r := if r = .esp then 0x80107f00 else 7
  segs _ := 0x10
  cs := 8
  eip := 0x80100400
  eflags := 0x202
  mem _ := 0

/-- The instruction `ret`. -/
def ret (m : Machine) : Machine := { m.drop 4 with eip := m.above 0 }

theorem ret_esp (m : Machine) : (ret m).esp = m.esp + 4 := setReg_same m .esp (m.esp + 4)

theorem timer_exec :
    Exec linkedAt (fun _ => 0) kernelStack (fun m m' => m' = ret m) 0x80107f80 idle
      (leave (fun _ => 0) (ret (enter linkedAt (fun _ => 0) ⟨32, 0⟩ idle))) := by
  have hesp : (ret (enter linkedAt (fun _ => 0) ⟨32, 0⟩ idle)).esp = idle.esp - 72 := by
    obtain ⟨h, hs⟩ : ∃ h, Stacked (frameWords linkedAt ⟨32, 0⟩ h idle) idle
      (enter linkedAt (fun _ => 0) ⟨32, 0⟩ idle) := enter_stacked
    have henter : (enter linkedAt (fun _ => 0) ⟨32, 0⟩ idle).esp = idle.esp - 76 := hs.esp_eq
    rw [ret_esp, henter]
    decide
  refine .trap ⟨32, 0⟩ (.done _ idle) (by decide) (.step (.done _ _) rfl ⟨fun _ _ _ => rfl, ?_⟩)
    hesp enter_top.1
  rw [hesp]
  decide

theorem traps_invisible_timer :
    Quiet kernelStack (fun m m' => m' = ret m) 0x80107f80 idle
      (leave (fun _ => 0) (ret (enter linkedAt (fun _ => 0) ⟨32, 0⟩ idle))) :=
  (traps_invisible timer_exec (by decide) (by decide)).1

end Sprocket.Traps
