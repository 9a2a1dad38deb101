/-
  File:      Sprocket/Picirq.lean
  Subject:   THE INTERRUPT CONTROLLERS: which device gets through, and with which vector.

  Two 8259A chips are cascaded: the slave's output is line 2 of the master. `picinit` programs both
  through their ports, `enable_irq` opens a line in the software's mask and writes the mask out.

  A chip takes up to four initialization words in a row, so what a byte on the data port means
  depends on what came before; `Chip.data` and `Chip.command` follow the data sheet, from any state
  the firmware may have left. In acknowledging an interrupt the master, or the slave the master
  names, puts its offset and the number of the line on the bus.

  The kernel never sends an end of interrupt: both chips are put into automatic EOI mode. "NB
  Automatic EOI mode doesn't tend to work on the slave", so whether a chip heeds the mode is a
  property of the chip at hand, and what follows is said for a slave of either kind.

  * `picinit_gives` -- the state `picinit` makes of any other;
  * `runCalls_gives` -- by induction on the calls, the mask and the chips after any run;
  * `Operates.routes` -- the pair as one controller, from the lines each chip shuts;
  * `Operates.run` -- by induction on the interrupts, which lines are shut after any of them;
  * `pic_routes` -- after any calls that initialize and any interrupts, which lines interrupt the
    processor, with which vector, and when `trap` knows every vector it is given.
-/
import Mathlib.Data.List.Find
import Mathlib.Logic.Function.Basic
import Sprocket.Lib.Prog
import Sprocket.Traps

namespace Sprocket.Picirq

open Prog Traps.Interrupt

/-! ## 1. The chips -/

/-- What the next byte on the data port is. -/
inductive Expects where
  | icw2
  | icw3
  | icw4
  | mask
  deriving DecidableEq, Repr

/-- The registers of a chip. `heedsAutoEoi` is of the chip at hand, and no byte changes it. -/
structure Chip where
  heedsAutoEoi : Bool
  expects : Expects
  single : Bool
  needsIcw4 : Bool
  offset : UInt8
  cascade : UInt8
  mode86 : Bool
  autoEoi : Bool
  specialMask : Bool
  readIsr : Bool
  imr : UInt8
  isr : UInt8
  deriving DecidableEq, Repr

/-- A byte on the command port. ICW1 has bit 4 set and clears the mask, OCW3 has bit 3; OCW2 is not
    used by the source and changes nothing here. -/
def Chip.command (c : Chip) (v : UInt8) : Chip :=
  if v &&& 0x10 ≠ 0 then
    { c with
      expects := .icw2
      single := v &&& 0x02 != 0
      needsIcw4 := v &&& 0x01 != 0
      mode86 := c.mode86 && v &&& 0x01 != 0
      autoEoi := c.autoEoi && v &&& 0x01 != 0
      specialMask := false
      readIsr := false
      imr := 0 }
  else if v &&& 0x08 ≠ 0 then
    { c with
      specialMask := if v &&& 0x40 ≠ 0 then v &&& 0x20 != 0 else c.specialMask
      readIsr := if v &&& 0x02 ≠ 0 then v &&& 0x01 != 0 else c.readIsr }
  else c

/-- A byte on the data port. -/
def Chip.data (c : Chip) (v : UInt8) : Chip :=
  match c.expects with
  | .icw2 => { c with
      offset := v &&& 0xF8
      expects := if !c.single then .icw3 else if c.needsIcw4 then .icw4 else .mask }
  | .icw3 => { c with cascade := v, expects := if c.needsIcw4 then .icw4 else .mask }
  | .icw4 => { c with mode86 := v &&& 0x01 != 0, autoEoi := v &&& 0x02 != 0, expects := .mask }
  | .mask => { c with imr := v }

/-! ## 2. The code -/

abbrev ioPic1 : UInt16 := 0x20
abbrev ioPic2 : UInt16 := 0xA0
abbrev maxIrq : UInt32 := 15
abbrev irqSlave : UInt8 := 2

/-- `PIC`, and the chips. -/
structure Pics where
  mask : UInt16
  master : Chip
  slave : Chip

/-- `Mask::new` -/
def newMask : UInt16 := (0xFFFF : UInt16) &&& ~~~ (1 <<< irqSlave.toUInt16)

def outb (port : UInt16) (v : UInt8) : Prog Pics Unit Unit := modify fun s =>
  if port = ioPic1 then { s with master := s.master.command v }
  else if port = ioPic1 + 1 then { s with master := s.master.data v }
  else if port = ioPic2 then { s with slave := s.slave.command v }
  else if port = ioPic2 + 1 then { s with slave := s.slave.data v }
  else s

def setMask (newMask : UInt16) : Prog Pics Unit Unit := do
  modify fun s => { s with mask := newMask }
  outb (ioPic1 + 1) newMask.toUInt8
  outb (ioPic2 + 1) (newMask >>> 8).toUInt8

def enableIrq (irq : UInt32) : Prog Pics Unit Unit := do
  require (irq ≤ maxIrq)
  let s ← get
  setMask (s.mask &&& ~~~ (1 <<< irq.toUInt16))

def picinit : Prog Pics Unit Unit := do
  -- "mask all interrupts"
  outb (ioPic1 + 1) 0xFF
  outb (ioPic2 + 1) 0xFF
  outb ioPic1 0x11
  outb (ioPic1 + 1) tIrq0
  outb (ioPic1 + 1) (1 <<< irqSlave)
  outb (ioPic1 + 1) 0x3
  outb ioPic2 0x11
  outb (ioPic2 + 1) (tIrq0 + 8)
  outb (ioPic2 + 1) irqSlave
  outb (ioPic2 + 1) 0x3
  outb ioPic1 0x68
  outb ioPic1 0x0a
  outb ioPic2 0x68
  outb ioPic2 0x0a

inductive Call where
  | picinit
  | enableIrq (irq : UInt32)
  deriving DecidableEq, Repr

def Call.perform : Call → Prog Pics Unit Unit
  | .picinit => Picirq.picinit
  | .enableIrq irq => Picirq.enableIrq irq

/-- Calls from anywhere in the kernel, one after the other. -/
def runCalls : List Call → Prog Pics Unit Unit
  | [] => pure ()
  | c :: cs => do
    c.perform
    runCalls cs

/-! ## 3. An interrupt is acknowledged -/

/-- A bit of a register. -/
def bit (r : UInt8) (i : Nat) : Bool := r.toBitVec.getLsbD i

/-- The line with the highest priority that is requested and not masked. -/
def Chip.pending (c : Chip) (irr : Nat → Bool) : Option Nat :=
  (List.range 8).find? fun i => irr i && !bit c.imr i

/-- The line in service with the highest priority. In special mask mode a masked one does not
    count. -/
def Chip.inService (c : Chip) : Option Nat :=
  (List.range 8).find? fun i => bit c.isr i && !(c.specialMask && bit c.imr i)

/-- The line for which the chip raises its output. -/
def Chip.int (c : Chip) (irr : Nat → Bool) : Option Nat :=
  (c.pending irr).filter fun i => c.inService.all fun j => i < j

/-- A line comes into service. -/
def Chip.serving (c : Chip) (i : Nat) : Chip := { c with isr := c.isr ||| (1 <<< UInt8.ofNat i) }

/-- The chip after it has been acknowledged. In automatic EOI mode no line stays in service, if the
    chip heeds the mode. -/
def Chip.acked (c : Chip) (line : Option Nat) : Chip :=
  match line with
  | some i => if c.autoEoi && c.heedsAutoEoi then c else c.serving i
  | none => c

/-- The lines of the master: the devices' and, at 2, the slave's output. -/
def Pics.masterLines (s : Pics) (req : Nat → Bool) (i : Nat) : Bool :=
  if i = 2 then (s.slave.int fun j => req (8 + j)).isSome else req i

/-- The processor is interrupted. -/
def Pics.interrupts (s : Pics) (req : Nat → Bool) : Bool :=
  (s.master.int (s.masterLines req)).isSome

/-- **The vector the processor reads.** A chip whose request has gone answers with line 7. Where the
    master has a slave, the slave with the number of the line answers; if there is none, nobody
    does. -/
def Pics.acknowledge (s : Pics) (req : Nat → Bool) : Option UInt8 × Pics :=
  let m := s.master.int (s.masterLines req)
  let k := m.getD 7
  if bit s.master.cascade k && !s.master.single then
    if (s.slave.cascade &&& 7).toNat = k then
      let j := s.slave.int fun j => req (8 + j)
      (some (s.slave.offset + UInt8.ofNat (j.getD 7)),
        { s with master := s.master.acked m, slave := s.slave.acked j })
    else (none, { s with master := s.master.acked m })
  else (some (s.master.offset + UInt8.ofNat k), { s with master := s.master.acked m })

/-- The chips after interrupts that are acknowledged one after the other. Nothing is written to them
    in between, for the kernel has no OCW2. -/
def Pics.acknowledgeAll (s : Pics) (reqs : List (Nat → Bool)) : Pics :=
  reqs.foldl (fun s req => (s.acknowledge req).2) s

/-! ## 4. What the calls leave -/

/-- A chip as `picinit` leaves it. -/
def configured (heeds : Bool) (offset cascade isr imr : UInt8) : Chip where
  heedsAutoEoi := heeds
  expects := .mask
  single := false
  needsIcw4 := true
  offset := offset
  cascade := cascade
  mode86 := true
  autoEoi := true
  specialMask := true
  readIsr := false
  imr := imr
  isr := isr

theorem data_isr (c : Chip) (v : UInt8) : (c.data v).isr = c.isr := by
  unfold Chip.data
  cases c.expects <;> rfl

theorem data_heeds (c : Chip) (v : UInt8) : (c.data v).heedsAutoEoi = c.heedsAutoEoi := by
  unfold Chip.data
  cases c.expects <;> rfl

/-- **From any state the seven bytes configure a chip**: ICW1 starts the sequence anew. -/
theorem configured_of_init (c : Chip) (offset cascade : UInt8) :
    ((((((c.data 0xFF).command 0x11).data offset).data cascade).data 0x3).command 0x68).command
      0x0a = configured c.heedsAutoEoi (offset &&& 0xF8) cascade c.isr 0 := by
  have hstart : ∀ b : Chip, (((((b.command 0x11).data offset).data cascade).data 0x3).command
      0x68).command 0x0a = configured b.heedsAutoEoi (offset &&& 0xF8) cascade b.isr 0 :=
    fun b => rfl
  rw [hstart, data_isr, data_heeds]

/-- The state `picinit` leaves. -/
def initialized (s : Pics) : Pics where
  mask := s.mask
  master := configured s.master.heedsAutoEoi 0x20 0x04 s.master.isr 0
  slave := configured s.slave.heedsAutoEoi 0x28 0x02 s.slave.isr 0

section Ports

variable (v : UInt8) (s : Pics)

theorem gives_command1 : Gives id (outb ioPic1 v) s (.ok ())
    { s with master := s.master.command v } := gives_id_iff.mpr rfl

theorem gives_data1 : Gives id (outb (ioPic1 + 1) v) s (.ok ())
    { s with master := s.master.data v } := gives_id_iff.mpr rfl

theorem gives_command2 : Gives id (outb ioPic2 v) s (.ok ())
    { s with slave := s.slave.command v } := gives_id_iff.mpr rfl

theorem gives_data2 : Gives id (outb (ioPic2 + 1) v) s (.ok ())
    { s with slave := s.slave.data v } := gives_id_iff.mpr rfl

end Ports

theorem picinit_gives (s : Pics) : picinit s = (.ok (), initialized s) := by
  have hend : initialized s = {
      mask := s.mask
      master := ((((((s.master.data 0xFF).command 0x11).data tIrq0).data
        (1 <<< irqSlave)).data 0x3).command 0x68).command 0x0a
      slave := ((((((s.slave.data 0xFF).command 0x11).data (tIrq0 + 8)).data
        irqSlave).data 0x3).command 0x68).command 0x0a } := by
    rw [configured_of_init, configured_of_init]
    rfl
  rw [hend]
  refine gives_id_iff.mp ?_
  unfold picinit
  refine (gives_data1 _ _).then ((gives_data2 _ _).then ((gives_command1 _ _).then ?_))
  refine (gives_data1 _ _).then ((gives_data1 _ _).then ((gives_data1 _ _).then ?_))
  refine (gives_command2 _ _).then ((gives_data2 _ _).then ((gives_data2 _ _).then ?_))
  refine (gives_data2 _ _).then ((gives_command1 _ _).then ((gives_command1 _ _).then ?_))
  exact (gives_command2 _ _).then (gives_command2 _ _)

/-- The line is closed in the software's mask. -/
def closed (mask : UInt16) (n : Nat) : Bool := mask.toBitVec.getLsbD n

/-- Opening a line opens this line only. -/
theorem closed_enable {irq : UInt32} (mask : UInt16) (h : irq ≤ maxIrq) {n : Nat} (hn : n < 16) :
    closed (mask &&& ~~~ (1 <<< irq.toUInt16)) n = (closed mask n && n != irq.toNat) := by
  have hirq : irq.toNat ≤ 15 := UInt32.le_iff_toNat_le.mp h
  have hshift : irq.toUInt16.toNat % 16 = irq.toNat := by
    rw [UInt32.toNat_toUInt16]
    omega
  have hbit : (decide (n < irq.toNat) || !decide (n - irq.toNat = 0)) = (n != irq.toNat) := by
    rw [Bool.eq_iff_iff]
    simp only [Bool.or_eq_true, decide_eq_true_eq, Bool.not_eq_true', decide_eq_false_iff_not,
      bne_iff_ne]
    omega
  unfold closed
  rw [← hbit, ← hshift]
  simp [hn]

theorem bit_low (mask : UInt16) {i : Nat} (h : i < 8) : bit mask.toUInt8 i = closed mask i := by
  unfold bit closed
  simp [h]

theorem bit_high (mask : UInt16) {i : Nat} (h : i < 8) :
    bit (mask >>> 8).toUInt8 i = closed mask (8 + i) := by
  unfold bit closed
  simp [h]

/-- The line a call enables. -/
def Call.line : Call → Option Nat
  | .picinit => none
  | .enableIrq irq => some irq.toNat

def enabledBy (cs : List Call) : List Nat := cs.filterMap Call.line

/-- Every line is one of the sixteen. -/
def Valid (cs : List Call) : Prop := ∀ n ∈ enabledBy cs, n ≤ 15

/-- The software's mask is open at the lines enabled so far, and at the slave's. -/
def Opens (mask : UInt16) (lines : List Nat) : Prop :=
  ∀ n < 16, closed mask n = !decide (n = 2 ∨ n ∈ lines)

theorem newMask_opens : Opens newMask [] := by
  unfold Opens
  decide

theorem Opens.enable {mask : UInt16} {lines : List Nat} (h : Opens mask lines) {irq : UInt32}
    (hirq : irq ≤ maxIrq) :
    Opens (mask &&& ~~~ (1 <<< irq.toUInt16)) (lines ++ [irq.toNat]) := by
  intro n hn
  rw [closed_enable mask hirq hn, h n hn, Bool.eq_iff_iff]
  simp only [Bool.and_eq_true, Bool.not_eq_true', decide_eq_false_iff_not, bne_iff_ne,
    List.mem_append, List.mem_singleton]
  tauto

/-- The state `enable_irq` leaves. -/
def enabled (s : Pics) (irq : UInt32) : Pics where
  mask := s.mask &&& ~~~ (1 <<< irq.toUInt16)
  master := s.master.data (s.mask &&& ~~~ (1 <<< irq.toUInt16)).toUInt8
  slave := s.slave.data ((s.mask &&& ~~~ (1 <<< irq.toUInt16)) >>> 8).toUInt8

theorem enableIrq_gives (s : Pics) {irq : UInt32} (h : irq ≤ maxIrq) :
    enableIrq irq s = (.ok (), enabled s irq) := by
  unfold enableIrq require
  rw [if_pos h]
  rfl

theorem valid_enable {irq : UInt32} {cs : List Call} (h : Valid (.enableIrq irq :: cs)) :
    irq ≤ maxIrq :=
  UInt32.le_iff_toNat_le.mpr (h irq.toNat List.mem_cons_self)

theorem enabledBy_append (cs ds : List Call) :
    enabledBy (cs ++ ds) = enabledBy cs ++ enabledBy ds := List.filterMap_append

theorem valid_left {cs ds : List Call} (h : Valid (cs ++ ds)) : Valid cs := fun n hn =>
  h n (enabledBy_append cs ds ▸ List.mem_append_left _ hn)

theorem valid_right {cs ds : List Call} (h : Valid (cs ++ ds)) : Valid ds := fun n hn =>
  h n (enabledBy_append cs ds ▸ List.mem_append_right _ hn)

theorem valid_tail {c : Call} {cs : List Call} (h : Valid (c :: cs)) : Valid cs :=
  valid_right (show Valid ([c] ++ cs) from h)

/-- What no call changes: the lines in service, and the kinds of the chips. -/
def SameService (s t : Pics) : Prop :=
  t.master.isr = s.master.isr ∧ t.slave.isr = s.slave.isr ∧
    t.master.heedsAutoEoi = s.master.heedsAutoEoi ∧ t.slave.heedsAutoEoi = s.slave.heedsAutoEoi

theorem SameService.trans {s t u : Pics} (h : SameService s t) (h' : SameService t u) :
    SameService s u :=
  ⟨h'.1.trans h.1, h'.2.1.trans h.2.1, h'.2.2.1.trans h.2.2.1, h'.2.2.2.trans h.2.2.2⟩

theorem enabled_service (s : Pics) (irq : UInt32) : SameService s (enabled s irq) :=
  ⟨data_isr s.master _, data_isr s.slave _, data_heeds s.master _, data_heeds s.slave _⟩

/-- **Any run of calls**: the mask is open at the lines enabled, and no line has come into
    service. -/
theorem runCalls_gives {cs : List Call} (hvalid : Valid cs) :
    ∀ {s : Pics} {lines : List Nat}, Opens s.mask lines → ∃ t, runCalls cs s = (.ok (), t) ∧
      Opens t.mask (lines ++ enabledBy cs) ∧ SameService s t := by
  induction cs with
  | nil =>
    intro s lines h
    refine ⟨s, rfl, ?_, rfl, rfl, rfl, rfl⟩
    rw [show enabledBy [] = [] from rfl, List.append_nil]
    exact h
  | cons c cs ih =>
    intro s lines h
    cases c with
    | picinit =>
      obtain ⟨t, hrun, hopen, hsame⟩ := ih (valid_tail hvalid) (s := initialized s) h
      have hcalls : runCalls (.picinit :: cs) s = runCalls cs (initialized s) :=
        bind_of_ok (picinit_gives s)
      exact ⟨t, hcalls.trans hrun, hopen, hsame⟩
    | enableIrq irq =>
      have hirq := valid_enable hvalid
      obtain ⟨t, hrun, hopen, hsame⟩ := ih (valid_tail hvalid) (s := enabled s irq)
        (h.enable hirq)
      have hcalls : runCalls (.enableIrq irq :: cs) s = runCalls cs (enabled s irq) :=
        bind_of_ok (enableIrq_gives s hirq)
      refine ⟨t, hcalls.trans hrun, ?_, (enabled_service s irq).trans hsame⟩
      rw [List.append_assoc] at hopen
      exact hopen

/-! ## 5. The lines a chip shuts -/

/-- The chip does not answer for the line: it is masked, or one in service comes before it. -/
def Chip.shuts (c : Chip) (i : Nat) : Bool := bit c.imr i || !c.inService.all fun j => i < j

/-- **A chip raises its output for the first requested line it does not shut.** What the lines in
    service hold up is the rest of the list from some line on. -/
theorem int_eq (c : Chip) (irr : Nat → Bool) :
    c.int irr = (List.range 8).find? fun i => irr i && !c.shuts i := by
  unfold Chip.int
  cases hpending : c.pending irr with
  | none =>
    refine (List.find?_eq_none.mpr fun i hi => ?_).symm
    have hno := List.find?_eq_none.mp hpending i hi
    unfold Chip.shuts
    rw [Bool.not_or, ← Bool.and_assoc, Bool.eq_false_iff.mpr hno]
    exact Bool.false_ne_true
  | some k =>
    obtain ⟨hk, hlt, hbefore⟩ := List.find?_range_eq_some.mp hpending
    have hsoon : ∀ j < k, (!(irr j && !c.shuts j)) = true := by
      intro j hj
      have hno := hbefore j hj
      rw [Bool.not_eq_true'] at hno ⊢
      unfold Chip.shuts
      rw [Bool.not_or, ← Bool.and_assoc, hno, Bool.false_and]
    cases hall : c.inService.all fun j => decide (k < j) with
    | true =>
      rw [Option.filter_some, if_pos hall]
      refine (List.find?_range_eq_some.mpr ⟨?_, hlt, hsoon⟩).symm
      unfold Chip.shuts
      rw [hall, Bool.not_true, Bool.or_false]
      exact hk
    | false =>
      rw [Option.filter_some, if_neg (Bool.not_eq_true _ ▸ hall)]
      refine (List.find?_eq_none.mpr fun i _ => ?_).symm
      by_cases hi : i < k
      · exact (Bool.not_eq_true _).mpr ((Bool.not_eq_true' _).mp (hsoon i hi))
      · -- the line in service that holds up `k` holds up what comes after it
        obtain ⟨t, ht⟩ : ∃ t, c.inService = some t := by
          cases hs : c.inService with
          | none => rw [hs] at hall; cases hall
          | some t => exact ⟨t, rfl⟩
        have hkt : t ≤ k := by
          rw [ht] at hall
          exact Nat.not_lt.mp (of_decide_eq_false hall)
        have hit : decide (i < t) = false := decide_eq_false (by omega)
        unfold Chip.shuts
        rw [ht, Option.all_some, hit]
        simp

/-- With no line in service the mask alone shuts lines. -/
theorem shuts_configured (heeds : Bool) (offset cascade imr : UInt8) (i : Nat) :
    (configured heeds offset cascade 0 imr).shuts i = bit imr i := by
  have hnone : (configured heeds offset cascade 0 imr).inService = none := by
    refine List.find?_eq_none.mpr fun i _ => ?_
    have hzero : bit (configured heeds offset cascade 0 imr).isr i = false := BitVec.getLsbD_zero
    rw [hzero, Bool.false_and]
    decide
  unfold Chip.shuts
  rw [hnone]
  exact Bool.or_false _

theorem bit_serving (c : Chip) {i j : Nat} (hi : i < 8) (hj : j < 8) :
    bit (c.serving j).isr i = (bit c.isr i || decide (i = j)) := by
  have hbit : (!decide (i < j) && decide (i - j = 0)) = decide (i = j) := by
    rw [Bool.eq_iff_iff]
    simp only [Bool.and_eq_true, Bool.not_eq_true', decide_eq_false_iff_not, decide_eq_true_eq]
    omega
  unfold bit Chip.serving
  rw [← hbit]
  simp [hi, Nat.mod_eq_of_lt hj]

/-- **A line that comes into service holds up itself and every line after it.** -/
theorem shuts_serving {c : Chip} {j : Nat} (hj : j < 8) (hopen : c.shuts j = false) (i : Nat) :
    (c.serving j).shuts i = (c.shuts i || decide (j ≤ i)) := by
  unfold Chip.shuts at hopen ⊢
  rw [Bool.or_eq_false_iff, Bool.not_eq_false'] at hopen
  obtain ⟨hmask, hfirst⟩ := hopen
  have hlater : ∀ t, c.inService = some t → j < t := by
    intro t ht
    rw [ht] at hfirst
    exact of_decide_eq_true hfirst
  have hservice : (c.serving j).inService = some j := by
    refine List.find?_range_eq_some.mpr ⟨?_, List.mem_range.mpr hj, fun k hk => ?_⟩
    · rw [bit_serving c hj hj, show (c.serving j).imr = c.imr from rfl, hmask]
      simp
    · rw [bit_serving c (by omega) hj, decide_eq_false (by omega : ¬ k = j), Bool.or_false,
        Bool.not_eq_true']
      refine (Bool.not_eq_true _).mp fun hbit => ?_
      -- a line before `j` in service would be the first, or come after it
      have hmem : k ∈ List.range 8 := List.mem_range.mpr (by omega)
      have hsome : c.inService ≠ none := fun hno => List.find?_eq_none.mp hno k hmem hbit
      obtain ⟨t, ht⟩ := Option.ne_none_iff_exists'.mp hsome
      have hbefore := (List.find?_range_eq_some.mp ht).2.2 k
      have := hlater t ht
      rw [show c.specialMask = (c.serving j).specialMask from rfl,
        show c.imr = (c.serving j).imr from rfl, hbit] at hbefore
      exact absurd (hbefore (by omega)) (by decide)
  rw [hservice, show (c.serving j).imr = c.imr from rfl, Option.all_some]
  by_cases hij : j ≤ i
  · rw [decide_eq_true hij, decide_eq_false (by omega : ¬ i < j)]
    simp
  · have hall : (c.inService.all fun k => decide (i < k)) = true := by
      cases hs : c.inService with
      | none => rfl
      | some t =>
        have := hlater t hs
        exact decide_eq_true (by omega)
    rw [decide_eq_false hij, decide_eq_true (by omega : i < j), hall]
    simp

/-! ## 6. The pair as one controller -/

/-- The lines of the devices in the order of their priority: the slave's are where the slave is. -/
def order : List Nat := [0, 1] ++ ((List.range 8).map (8 + ·) ++ [3, 4, 5, 6, 7])

/-- The first line of each part, and of the whole. -/
theorem order_find (q : Nat → Bool) :
    order.find? q = ([0, 1].find? q).or
      ((((List.range 8).find? fun j => q (8 + j)).map (8 + ·)).or ([3, 4, 5, 6, 7].find? q)) := by
  unfold order
  rw [List.find?_append, List.find?_append, List.find?_map]
  rfl

theorem order_lines : ∀ n ∈ order, n < 16 ∧ n ≠ 2 := by decide

theorem mem_order {n : Nat} (h : n < 16) (htwo : n ≠ 2) : n ∈ order := by
  have hall : ∀ k < 16, k ≠ 2 → k ∈ order := by decide
  exact hall n h htwo

/-- **The pair in operation**: configured, with no line of the master in service, and with the lines
    shut that `c` shuts. -/
structure Operates (s : Pics) (c : Nat → Bool) : Prop where
  master : s.master = configured s.master.heedsAutoEoi 0x20 0x04 0 s.master.imr
  slave : s.slave = configured s.slave.heedsAutoEoi 0x28 0x02 s.slave.isr s.slave.imr
  low : ∀ i < 8, s.master.shuts i = c i
  high : ∀ i < 8, s.slave.shuts i = c (8 + i)
  two : c 2 = false

/-- The chips after a line has been served. -/
def Pics.serve (s : Pics) : Option Nat → Pics
  | none => s
  | some n =>
    if n < 8 then { s with master := s.master.acked (some n) }
    else { s with master := s.master.acked (some 2), slave := s.slave.acked (some (n - 8)) }

section Route

variable {s : Pics} {c : Nat → Bool}

theorem Operates.slave_find (h : Operates s c) (req : Nat → Bool) :
    s.slave.int (fun j => req (8 + j)) =
      (List.range 8).find? fun j => req (8 + j) && !c (8 + j) := by
  refine (int_eq s.slave _).trans (List.find?_congr fun j hj => ?_)
  rw [h.high j (List.mem_range.mp hj)]

/-- The master's line is the slave's where one of its devices is first. -/
theorem Operates.master_find (h : Operates s c) (req : Nat → Bool) :
    s.master.int (s.masterLines req) =
      ([0, 1].find? fun n => req n && !c n).or
        ((((List.range 8).find? fun j => req (8 + j) && !c (8 + j)).map fun _ => 2).or
          ([3, 4, 5, 6, 7].find? fun n => req n && !c n)) := by
  have hown : ∀ l : List Nat, (∀ i ∈ l, i ≠ 2 ∧ i < 8) →
      (l.find? fun i => s.masterLines req i && !s.master.shuts i) =
        l.find? fun n => req n && !c n := by
    intro l hl
    refine List.find?_congr fun i hi => ?_
    obtain ⟨h2, h8⟩ := hl i hi
    rw [h.low i h8, Pics.masterLines, if_neg h2]
  have htwo : (s.masterLines req 2 && !s.master.shuts 2) =
      ((List.range 8).find? fun j => req (8 + j) && !c (8 + j)).isSome := by
    rw [h.low 2 (by decide), h.two, Pics.masterLines, if_pos rfl, h.slave_find]
    exact Bool.and_true _
  have hsplit : List.range 8 = [0, 1] ++ ([2] ++ [3, 4, 5, 6, 7]) := rfl
  rw [int_eq, hsplit, List.find?_append, List.find?_append, hown [0, 1] (by decide),
    hown [3, 4, 5, 6, 7] (by decide), List.find?_singleton, htwo, ← hsplit]
  cases (List.range 8).find? fun j => req (8 + j) && !c (8 + j) <;> rfl

/-- The answer of the master, for a line that is not the slave's. -/
theorem Operates.acknowledge_master (h : Operates s c) {req : Nat → Bool} {m : Option Nat}
    (hmaster : s.master.int (s.masterLines req) = m) (hown : bit 0x04 (m.getD 7) = false) :
    s.acknowledge req =
      (some (32 + UInt8.ofNat (m.getD 7)), { s with master := s.master.acked m }) := by
  have hcascade : (bit s.master.cascade (m.getD 7) && !s.master.single) = false := by
    rw [h.master]
    exact (congrArg (· && true) hown)
  have hoffset : s.master.offset = 32 := by
    rw [h.master]
    rfl
  unfold Pics.acknowledge
  dsimp only
  rw [hmaster, if_neg (Bool.not_eq_true _ ▸ hcascade), hoffset]

/-- The answer of the slave. -/
theorem Operates.acknowledge_slave (h : Operates s c) {req : Nat → Bool} {j : Nat}
    (hmaster : s.master.int (s.masterLines req) = some 2)
    (hslave : s.slave.int (fun i => req (8 + i)) = some j) :
    s.acknowledge req = (some (32 + UInt8.ofNat (8 + j)),
      { s with master := s.master.acked (some 2), slave := s.slave.acked (some j) }) := by
  have hvector : (0x28 : UInt8) + UInt8.ofNat j = 32 + UInt8.ofNat (8 + j) := by
    rw [UInt8.ofNat_add, ← UInt8.add_assoc]
    rfl
  have hcascade : (bit s.master.cascade 2 && !s.master.single) = true := by
    rw [h.master]
    exact show (bit 0x04 2 && !false) = true by decide
  have hnumber : (s.slave.cascade &&& 7).toNat = 2 := by
    rw [h.slave]
    exact show ((0x02 : UInt8) &&& 7).toNat = 2 by decide
  have hoffset : s.slave.offset = 0x28 := by
    rw [h.slave]
    rfl
  unfold Pics.acknowledge
  dsimp only
  rw [hmaster, hslave, ← hvector, Option.getD_some, if_pos hcascade, if_pos hnumber, hoffset,
    Option.getD_some]

/-- **The pair acts as one controller**, with the lines open that the chips do not shut. -/
theorem Operates.routes (h : Operates s c) (req : Nat → Bool) :
    s.interrupts req = (order.find? fun n => req n && !c n).isSome ∧
    s.acknowledge req = (some (32 + UInt8.ofNat ((order.find? fun n => req n && !c n).getD 7)),
      s.serve (order.find? fun n => req n && !c n)) := by
  have hmaster := h.master_find req
  have hslave := h.slave_find req
  rw [order_find fun n => req n && !c n]
  unfold Pics.interrupts
  cases hfirst : [0, 1].find? fun n => req n && !c n with
  | some i =>
    rw [hfirst, Option.some_or] at hmaster
    rw [Option.some_or]
    have hi : i = 0 ∨ i = 1 := by simpa using List.mem_of_find?_eq_some hfirst
    refine ⟨by rw [hmaster], (h.acknowledge_master hmaster ?_).trans ?_⟩
    · rcases hi with rfl | rfl <;> decide
    · rcases hi with rfl | rfl <;> rfl
  | none =>
    rw [hfirst] at hmaster
    cases hmid : (List.range 8).find? fun j => req (8 + j) && !c (8 + j) with
    | some j =>
      rw [hmid] at hmaster hslave
      refine ⟨by rw [hmaster]; rfl, (h.acknowledge_slave hmaster hslave).trans ?_⟩
      show _ = (_, s.serve (some (8 + j)))
      unfold Pics.serve
      dsimp only
      rw [if_neg (by omega : ¬ 8 + j < 8), Nat.add_sub_cancel_left]
      rfl
    | none =>
      rw [hmid] at hmaster
      cases hlast : [3, 4, 5, 6, 7].find? fun n => req n && !c n with
      | none =>
        rw [hlast] at hmaster
        exact ⟨by rw [hmaster]; rfl, h.acknowledge_master hmaster rfl⟩
      | some i =>
        rw [hlast] at hmaster
        have hi : i = 3 ∨ i = 4 ∨ i = 5 ∨ i = 6 ∨ i = 7 := by
          simpa using List.mem_of_find?_eq_some hlast
        refine ⟨by rw [hmaster]; rfl, (h.acknowledge_master hmaster ?_).trans ?_⟩
        · rcases hi with rfl | rfl | rfl | rfl | rfl <;> decide
        · rcases hi with rfl | rfl | rfl | rfl | rfl <;> rfl

/-- A master that heeds automatic EOI is as it was. -/
theorem Operates.master_acked (h : Operates s c) (hheeds : s.master.heedsAutoEoi = true)
    (line : Option Nat) : s.master.acked line = s.master := by
  have hmode : s.master.autoEoi = true := by
    rw [h.master]
    rfl
  cases line with
  | none => rfl
  | some i => exact if_pos (by rw [hmode, hheeds]; rfl)

/-- So is a slave that does; one that does not has the line in service. -/
theorem Operates.slave_acked (h : Operates s c) (j : Nat) :
    s.slave.acked (some j) = if s.slave.heedsAutoEoi then s.slave else s.slave.serving j := by
  have hmode : s.slave.autoEoi = true := by
    rw [h.slave]
    rfl
  unfold Chip.acked
  dsimp only
  rw [hmode, Bool.true_and]

/-- Where no line stays in service the chips are as they were. -/
theorem Operates.serve_keeps (h : Operates s c) (hheeds : s.master.heedsAutoEoi = true) {n : Nat}
    (hn : n < 8 ∨ s.slave.heedsAutoEoi = true) : s.serve (some n) = s := by
  unfold Pics.serve
  dsimp only
  rw [h.master_acked hheeds, h.master_acked hheeds, h.slave_acked]
  split
  · rfl
  · rw [if_pos (hn.resolve_left ‹_›)]

/-- **With two chips that heed automatic EOI nothing stays in service**, whatever interrupts. -/
theorem Operates.acknowledgeAll_keeps (h : Operates s c) (hmaster : s.master.heedsAutoEoi = true)
    (hslave : s.slave.heedsAutoEoi = true) (reqs : List (Nat → Bool)) :
    s.acknowledgeAll reqs = s := by
  have hone : ∀ req, (s.acknowledge req).2 = s := by
    intro req
    rw [(h.routes req).2]
    cases order.find? fun n => req n && !c n with
    | none => rfl
    | some n => exact h.serve_keeps hmaster (.inr hslave)
  induction reqs with
  | nil => rfl
  | cons req reqs ih =>
    unfold Pics.acknowledgeAll at ih ⊢
    rw [List.foldl_cons, hone]
    exact ih

theorem Operates.serve_holds (h : Operates s c) (hheeds : s.master.heedsAutoEoi = true) {n : Nat}
    (hn : ¬ n < 8) (hslave : s.slave.heedsAutoEoi = false) :
    s.serve (some n) = { s with slave := s.slave.serving (n - 8) } := by
  unfold Pics.serve
  dsimp only
  rw [if_neg hn, h.master_acked hheeds, h.slave_acked, hslave]
  rfl

/-- **A slave's line that stays in service** shuts itself and the slave's lines after it. -/
theorem Operates.serving (h : Operates s c) {n : Nat} (hn : 8 ≤ n) (hlt : n < 16)
    (hopen : c n = false) :
    Operates { s with slave := s.slave.serving (n - 8) } fun k => c k || decide (n ≤ k) := by
  have hfree : s.slave.shuts (n - 8) = false := by
    rw [h.high (n - 8) (by omega), Nat.add_sub_cancel' hn, hopen]
  refine ⟨h.master, ?_, fun i hi => ?_, fun i hi => ?_, ?_⟩
  · show s.slave.serving (n - 8) = _
    unfold Chip.serving
    rw [h.slave]
    rfl
  · rw [decide_eq_false (by omega : ¬ n ≤ i), Bool.or_false]
    exact h.low i hi
  · have hle : decide (n - 8 ≤ i) = decide (n ≤ 8 + i) := decide_eq_decide.mpr (by omega)
    rw [← h.high i hi, ← hle]
    exact shuts_serving (by omega) hfree i
  · rw [h.two, decide_eq_false (by omega : ¬ n ≤ 2), Bool.or_false]

end Route

/-! ## 7. Any run that initializes -/

theorem runCalls_append {cs ds : List Call} {s t : Pics} (h : runCalls cs s = (.ok (), t)) :
    runCalls (cs ++ ds) s = runCalls ds t := by
  induction cs generalizing s with
  | nil =>
    cases h
    rfl
  | cons c cs ih =>
    obtain ⟨⟨⟩, u, hc, hcs⟩ := bind_eq_ok h
    exact (bind_of_ok hc).trans (ih hcs)

/-- The calls after the last initialization. -/
def enables (irqs : List UInt32) : List Call := irqs.map .enableIrq

/-- Chips as after the initialization, with these masks and no line in service. -/
def configuredWith (master slave : Bool) (mask : UInt16) (low high : UInt8) : Pics where
  mask := mask
  master := configured master 0x20 0x04 0 low
  slave := configured slave 0x28 0x02 0 high

/-- The software's mask has been written to the chips. -/
def written (master slave : Bool) (mask : UInt16) : Pics :=
  configuredWith master slave mask mask.toUInt8 (mask >>> 8).toUInt8

/-- **One call after the initialization the masks of the chips are the software's**, and they stay
    so. -/
theorem runCalls_enables {irqs : List UInt32} {master slave : Bool} (hvalid : Valid (enables irqs))
    (hsome : irqs ≠ []) :
    ∀ {mask : UInt16} {low high : UInt8} {lines : List Nat}, Opens mask lines →
      ∃ m, runCalls (enables irqs) (configuredWith master slave mask low high) =
          (.ok (), written master slave m) ∧
        Opens m (lines ++ enabledBy (enables irqs)) := by
  induction irqs with
  | nil => exact absurd rfl hsome
  | cons irq irqs ih =>
    intro mask low high lines hopen
    have hirq := valid_enable hvalid
    have hfirst : runCalls (enables (irq :: irqs)) (configuredWith master slave mask low high) =
        runCalls (enables irqs) (written master slave (mask &&& ~~~ (1 <<< irq.toUInt16))) :=
      bind_of_ok (enableIrq_gives _ hirq)
    rw [hfirst]
    rcases irqs with _ | ⟨next, rest⟩
    · exact ⟨_, rfl, hopen.enable hirq⟩
    · obtain ⟨m, hrun, hopens⟩ := ih (valid_tail hvalid) (List.cons_ne_nil _ _) (hopen.enable hirq)
      rw [List.append_assoc] at hopens
      exact ⟨m, hrun, hopens⟩

/-- The lines that get through after `before`, an initialization and `irqs`: right after the
    initialization all do, for ICW1 has cleared both masks. -/
def passes (before : List Call) (irqs : List UInt32) (n : Nat) : Bool :=
  irqs.isEmpty || decide (n ∈ enabledBy (before ++ .picinit :: enables irqs))

/-- The line that is served, while the lines from `held` on are held up. -/
def served (before : List Call) (irqs : List UInt32) (held : Nat) (req : Nat → Bool) : Option Nat :=
  order.find? fun n => req n && (passes before irqs n && decide (n < held))

/-- What the chips shut then. -/
def shut (before : List Call) (irqs : List UInt32) (held n : Nat) : Bool :=
  n != 2 && !(passes before irqs n && decide (n < held))

section Runs

variable {before : List Call} {irqs : List UInt32}

theorem served_eq (held : Nat) (req : Nat → Bool) :
    (order.find? fun n => req n && !shut before irqs held n) = served before irqs held req := by
  refine List.find?_congr fun n hn => ?_
  unfold shut
  rw [bne_iff_ne.mpr (order_lines n hn).2, Bool.true_and, Bool.not_not]

theorem served_some {held n : Nat} {req : Nat → Bool} (h : served before irqs held req = some n) :
    n < 16 ∧ n ≠ 2 ∧ req n = true ∧ passes before irqs n = true ∧ n < held := by
  have hline := order_lines n (List.mem_of_find?_eq_some h)
  have hopen := List.find?_some h
  rw [Bool.and_eq_true, Bool.and_eq_true, decide_eq_true_eq] at hopen
  exact ⟨hline.1, hline.2, hopen⟩

/-- A line that passes and is the only one requested is served. -/
theorem served_only {held n : Nat} (h : n ∈ order) (hpasses : passes before irqs n)
    (hheld : n < held) : served before irqs held (· == n) = some n := by
  cases hserved : served before irqs held (· == n) with
  | none =>
    have hno := List.find?_eq_none.mp hserved n h
    simp [hpasses, hheld] at hno
  | some k =>
    rw [eq_of_beq (served_some hserved).2.2.1]

/-- The chips are in operation as soon as they are initialized, whatever kinds they are. -/
theorem runCalls_operates {s : Pics} (hmask : s.mask = newMask) (hmaster : s.master.isr = 0)
    (hslave : s.slave.isr = 0) (hvalid : Valid (before ++ .picinit :: enables irqs)) :
    ∃ t, runCalls (before ++ .picinit :: enables irqs) s = (.ok (), t) ∧
      t.master.heedsAutoEoi = s.master.heedsAutoEoi ∧
      t.slave.heedsAutoEoi = s.slave.heedsAutoEoi ∧ Operates t (shut before irqs 16) := by
  obtain ⟨u, hrun, hopen, hm, hs, hmheeds, hsheeds⟩ :=
    runCalls_gives (valid_left hvalid) (hmask ▸ newMask_opens)
  have hinit : initialized u =
      configuredWith s.master.heedsAutoEoi s.slave.heedsAutoEoi u.mask 0 0 := by
    unfold initialized configuredWith
    rw [hm, hs, hmaster, hslave, hmheeds, hsheeds]
  have hall : runCalls (before ++ .picinit :: enables irqs) s = runCalls (enables irqs)
      (configuredWith s.master.heedsAutoEoi s.slave.heedsAutoEoi u.mask 0 0) :=
    (runCalls_append hrun).trans ((bind_of_ok (picinit_gives u)).trans (hinit ▸ rfl))
  rw [hall]
  by_cases hsome : irqs = []
  · subst hsome
    refine ⟨_, rfl, rfl, rfl, rfl, rfl, fun i hi => ?_, fun i hi => ?_, rfl⟩
    all_goals
      refine (shuts_configured _ _ _ 0 i).trans (BitVec.getLsbD_zero.trans ?_)
      unfold shut passes
      simp
      omega
  · obtain ⟨m, henables, hopens⟩ := runCalls_enables (valid_tail (valid_right hvalid)) hsome hopen
    have hpasses : ∀ n < 16, closed m n = shut before irqs 16 n := by
      intro n hn
      rw [shut, passes, List.isEmpty_eq_false_iff.mpr hsome, hopens n hn, enabledBy_append]
      by_cases htwo : n = 2 <;> simp [htwo, hn, enabledBy, Call.line]
    refine ⟨_, henables, rfl, rfl, rfl, rfl, fun i hi => ?_, fun i hi => ?_, rfl⟩
    · rw [← hpasses i (by omega), ← bit_low m hi]
      exact shuts_configured _ _ _ _ i
    · rw [← hpasses (8 + i) (by omega), ← bit_high m hi]
      exact shuts_configured _ _ _ _ i

/-- From where on lines are held up after one more interrupt: a slave that does not heed automatic
    EOI keeps its line in service. -/
def heldNext (heeds : Bool) (before : List Call) (irqs : List UInt32) (held : Nat)
    (req : Nat → Bool) : Nat :=
  match served before irqs held req with
  | some n => if n < 8 || heeds then held else n
  | none => held

/-- After interrupts one after the other. At 16, where it starts, nothing is held up. -/
def heldFrom (heeds : Bool) (before : List Call) (irqs : List UInt32) (reqs : List (Nat → Bool)) :
    Nat := reqs.foldl (heldNext heeds before irqs) 16

/-- **One interrupt.** -/
theorem Operates.step {s : Pics} {held : Nat} (h : Operates s (shut before irqs held))
    (hheeds : s.master.heedsAutoEoi = true) (hheld : 8 ≤ held) (req : Nat → Bool) :
    Operates (s.acknowledge req).2
        (shut before irqs (heldNext s.slave.heedsAutoEoi before irqs held req)) ∧
      (s.acknowledge req).2.master.heedsAutoEoi = true ∧
      (s.acknowledge req).2.slave.heedsAutoEoi = s.slave.heedsAutoEoi ∧
      8 ≤ heldNext s.slave.heedsAutoEoi before irqs held req := by
  rw [(h.routes req).2, served_eq]
  unfold heldNext
  cases hserved : served before irqs held req with
  | none => exact ⟨h, hheeds, rfl, hheld⟩
  | some n =>
    obtain ⟨hlt, htwo, -, hpasses, hn⟩ := served_some hserved
    dsimp only
    by_cases hkeeps : n < 8 ∨ s.slave.heedsAutoEoi = true
    · rw [h.serve_keeps hheeds hkeeps, if_pos (by simpa using hkeeps)]
      exact ⟨h, hheeds, rfl, hheld⟩
    · obtain ⟨hhigh, hslave⟩ := not_or.mp hkeeps
      rw [h.serve_holds hheeds hhigh (Bool.eq_false_iff.mpr hslave),
        if_neg (by simpa using hkeeps)]
      have hopen : shut before irqs held n = false := by
        unfold shut
        rw [hpasses, decide_eq_true hn]
        exact Bool.and_false _
      have hnext := h.serving (by omega) hlt hopen
      have hshut : (fun k => shut before irqs held k || decide (n ≤ k)) =
          shut before irqs n := by
        funext k
        unfold shut
        by_cases hk : n ≤ k
        · have hother : k ≠ 2 := by omega
          simp [hk, hother]
        · have hbefore : k < n ∧ k < held := by omega
          simp [hbefore]
      rw [hshut] at hnext
      exact ⟨hnext, hheeds, rfl, by omega⟩

/-- **Any run of interrupts**, by induction on them. -/
theorem Operates.run (reqs : List (Nat → Bool)) : ∀ {s : Pics} {held : Nat},
    Operates s (shut before irqs held) → s.master.heedsAutoEoi = true → 8 ≤ held →
      Operates (s.acknowledgeAll reqs) (shut before irqs
        (reqs.foldl (heldNext s.slave.heedsAutoEoi before irqs) held)) := by
  induction reqs with
  | nil =>
    intro s held h _ _
    exact h
  | cons req reqs ih =>
    intro s held h hheeds hheld
    obtain ⟨hnext, hmaster, hslave, hle⟩ := h.step hheeds hheld req
    have hrest := ih hnext hmaster hle
    rw [hslave] at hrest
    exact hrest

/-- With a slave that heeds automatic EOI nothing is ever held up. -/
theorem heldFrom_heeds (reqs : List (Nat → Bool)) : heldFrom true before irqs reqs = 16 := by
  have hnext : ∀ held req, heldNext true before irqs held req = held := by
    intro held req
    unfold heldNext
    cases served before irqs held req with
    | none => rfl
    | some n => exact if_pos (Bool.or_true _)
  induction reqs with
  | nil => rfl
  | cons req reqs ih =>
    unfold heldFrom at ih ⊢
    rw [List.foldl_cons, hnext]
    exact ih

theorem heldNext_le (heeds : Bool) (held : Nat) (req : Nat → Bool) :
    heldNext heeds before irqs held req ≤ held := by
  unfold heldNext
  cases hserved : served before irqs held req with
  | none => exact le_rfl
  | some n =>
    have hn := (served_some hserved).2.2.2.2
    dsimp only
    split <;> omega

/-- What is held up stays so. -/
theorem foldl_heldNext_le (heeds : Bool) (reqs : List (Nat → Bool)) (held : Nat) :
    reqs.foldl (heldNext heeds before irqs) held ≤ held := by
  induction reqs generalizing held with
  | nil => exact le_rfl
  | cons req reqs ih => exact (ih _).trans (heldNext_le heeds held req)

/-- **A slave's line that stays in service is held up for good**, with the lines after it. -/
theorem heldFrom_served {reqs : List (Nat → Bool)} (more : List (Nat → Bool)) {req : Nat → Bool}
    {n : Nat}
    (hserved : served before irqs (heldFrom false before irqs reqs) req = some n) (hn : 8 ≤ n) :
    heldFrom false before irqs (reqs ++ req :: more) ≤ n := by
  have hnext : heldNext false before irqs (heldFrom false before irqs reqs) req = n := by
    unfold heldNext
    rw [hserved]
    exact if_neg (by simpa using hn)
  unfold heldFrom at hnext ⊢
  rw [List.foldl_append, List.foldl_cons, hnext]
  exact foldl_heldNext_le false more n

end Runs

/-! ## 8. The vectors that `trap` is given -/

/-- The lines with an `Interrupt` of their own. -/
def knownLines : List Nat := [0, 1, 4, 0xb, 14]

theorem ofByte_line : ∀ n < 16,
    (ofByte (32 + UInt8.ofNat n)).isSome = decide (n ∈ knownLines) := by decide

/-- **The two chips act as one controller.** `picinit` may find them in any state with no line in
    service, and the calls before it may be any. Afterwards the processor is interrupted exactly
    for a requested line that passes and is not held up, and is given the first such line in the
    order of priority. With a slave that heeds automatic EOI nothing stays in service and nothing is
    ever held up. With one that does not, a line of the slave that has been served once is held up
    for good, together with the slave's lines after it; the others go on. `trap` is given an
    `Interrupt` at every interrupt exactly if the lines that pass all have one; for a request that
    has gone it never is. -/
theorem pic_routes {before : List Call} {irqs : List UInt32} {s : Pics}
    (hmask : s.mask = newMask) (hmaster : s.master.isr = 0) (hslave : s.slave.isr = 0)
    (hheeds : s.master.heedsAutoEoi = true)
    (hvalid : Valid (before ++ .picinit :: enables irqs)) :
    ∃ t, runCalls (before ++ .picinit :: enables irqs) s = (.ok (), t) ∧
      (∀ reqs req,
        let line := served before irqs (heldFrom s.slave.heedsAutoEoi before irqs reqs) req
        (t.acknowledgeAll reqs).interrupts req = line.isSome ∧
        ((t.acknowledgeAll reqs).acknowledge req).1 = some (32 + UInt8.ofNat (line.getD 7))) ∧
      (s.slave.heedsAutoEoi = true → ∀ reqs, t.acknowledgeAll reqs = t ∧
        heldFrom s.slave.heedsAutoEoi before irqs reqs = 16) ∧
      (s.slave.heedsAutoEoi = false → ∀ reqs req n more,
        served before irqs (heldFrom s.slave.heedsAutoEoi before irqs reqs) req = some n → 8 ≤ n →
          ∀ k, n ≤ k → (t.acknowledgeAll (reqs ++ req :: more)).interrupts (· == k) = false) ∧
      ((∀ reqs req, (t.acknowledgeAll reqs).interrupts req →
          (((t.acknowledgeAll reqs).acknowledge req).1.bind ofByte).isSome) ↔
        ∀ n < 16, n ≠ 2 → passes before irqs n → n ∈ knownLines) ∧
      ∀ reqs req, ¬ (t.acknowledgeAll reqs).interrupts req →
        ((t.acknowledgeAll reqs).acknowledge req).1.bind ofByte = none := by
  obtain ⟨t, hrun, hm, hs, hstart⟩ := runCalls_operates hmask hmaster hslave hvalid
  have hroutes : ∀ reqs req, (t.acknowledgeAll reqs).interrupts req =
        (served before irqs (heldFrom s.slave.heedsAutoEoi before irqs reqs) req).isSome ∧
      ((t.acknowledgeAll reqs).acknowledge req).1 = some (32 + UInt8.ofNat
        ((served before irqs (heldFrom s.slave.heedsAutoEoi before irqs reqs) req).getD 7)) := by
    intro reqs req
    have hops := hstart.run reqs (hm.trans hheeds) (by omega)
    rw [hs] at hops
    obtain ⟨hint, hack⟩ := hops.routes req
    rw [served_eq] at hint hack
    exact ⟨hint, by rw [hack]; rfl⟩
  refine ⟨t, hrun, hroutes, fun hkind reqs => ?_, fun hkind reqs req n more hserved hn k hk => ?_,
    ⟨fun hknown n hn htwo hpasses => ?_, fun hlines reqs req hint => ?_⟩, fun reqs req hnone => ?_⟩
  · rw [hkind]
    exact ⟨hstart.acknowledgeAll_keeps (hm.trans hheeds) (hs.trans hkind) reqs,
      heldFrom_heeds reqs⟩
  · rw [hkind] at hserved
    rw [(hroutes _ _).1, hkind, Option.isSome_eq_false_iff, Option.isNone_iff_eq_none]
    refine Option.eq_none_iff_forall_ne_some.mpr fun j hj => ?_
    obtain ⟨-, -, heq, -, hlt⟩ := served_some hj
    have hle := heldFrom_served more hserved hn
    have := eq_of_beq heq
    omega
  · have honly := served_only (mem_order hn htwo) hpasses hn
    obtain ⟨hint, hack⟩ := hroutes [] (· == n)
    have hsome := hknown [] _ (hint.trans (congrArg Option.isSome honly))
    rw [hack, show heldFrom s.slave.heedsAutoEoi before irqs [] = 16 from rfl, honly,
      Option.getD_some, Option.bind_some, ofByte_line n hn] at hsome
    exact of_decide_eq_true hsome
  · obtain ⟨hserved, hack⟩ := hroutes reqs req
    rw [hint] at hserved
    obtain ⟨n, hn⟩ := Option.isSome_iff_exists.mp hserved.symm
    obtain ⟨hlt, htwo, -, hpass, -⟩ := served_some hn
    rw [hack, hn, Option.getD_some, Option.bind_some, ofByte_line n hlt]
    exact decide_eq_true (hlines n hlt htwo hpass)
  · obtain ⟨hserved, hack⟩ := hroutes reqs req
    rw [Bool.eq_false_iff.mpr hnone] at hserved
    rw [hack, Option.isNone_iff_eq_none.mp (Option.isSome_eq_false_iff.mp hserved.symm)]
    rfl

/-- Chips as a firmware leaves them: other offsets, other modes, a few lines open. The slave heeds
    automatic EOI or does not. -/
def firmware (heeds : Bool) : Pics where
  mask := newMask
  master := { configured true 0x08 0x04 0 0xB8 with autoEoi := false, specialMask := false }
  slave := { configured heeds 0x70 0x02 0 0x8F with autoEoi := false, specialMask := false }

/-- The kernel's own calls: the serial port before the initialization, the timer and the network
    card after it. The card, the timer and the disk request; the timer is served first, the card
    when the timer no longer requests. With a slave that does not heed automatic EOI this was the
    card's last interrupt, and the timer's was not. -/
theorem pic_routes_boot : ∃ t, runCalls [.enableIrq 4, .picinit, .enableIrq 0, .enableIrq 0xb]
      (firmware false) = (.ok (), t) ∧
    (t.acknowledge fun n => n == 0 || n == 11 || n == 14).1 = some 32 ∧
    (t.acknowledge fun n => n == 11 || n == 14).1 = some 43 ∧
    (t.acknowledgeAll [(· == 0), (· == 11)]).interrupts (· == 0) = true ∧
    (∀ more, (t.acknowledgeAll ([(· == 0)] ++ (· == 11) :: more)).interrupts (· == 11) = false) ∧
    ∀ reqs req, (t.acknowledgeAll reqs).interrupts req →
      (((t.acknowledgeAll reqs).acknowledge req).1.bind ofByte).isSome := by
  have hvalid : Valid ([.enableIrq 4] ++ .picinit :: enables [0, 0xb]) := by
    unfold Valid
    decide
  obtain ⟨t, hrun, hroutes, -, hheld, hknown, -⟩ :=
    pic_routes (s := firmware false) rfl rfl rfl rfl hvalid
  have hfirst : heldFrom (firmware false).slave.heedsAutoEoi [.enableIrq 4] [0, 0xb] [] = 16 := rfl
  have htimer : served [.enableIrq 4] [0, 0xb] 16 (fun n => n == 0 || n == 11 || n == 14) =
    some 0 := by decide
  have hcard : served [.enableIrq 4] [0, 0xb] 16 (fun n => n == 11 || n == 14) = some 11 := by
    decide
  refine ⟨t, hrun, ?_, ?_, ?_, fun more => hheld rfl _ _ 11 more (by decide) (by decide) 11 le_rfl,
    hknown.mpr (by decide)⟩
  · refine (hroutes [] _).2.trans ?_
    rw [hfirst, htimer]
    rfl
  · refine (hroutes [] _).2.trans ?_
    rw [hfirst, hcard]
    rfl
  · rw [(hroutes _ _).1]
    decide

end Sprocket.Picirq
