/-
  File:      Sprocket/Ata.lean
  Subject:   AN ATA DRIVE AS ITS PORTS SHOW IT.

  The drive behind ports 0x1f0 to 0x1f7: two devices of 512-byte sectors, the sector count and
  address registers, and the command in progress. Writing the command register latches the
  address and makes the command the current one, whatever the one before it had still to do. A
  word on the data port goes to or comes from the sector of the current command; where no word is
  due, a word written is lost and a word read is whatever the bus floats to. The drive is always
  ready and never reports an error (`ReadyStatus`); the other status bits are left open.

  Both drivers of the repository issue one-sector commands only; a command with another count is
  not modelled.

  * `outsl_gives`, `outsl_lost` -- words written to a write command, and to anything else;
  * `insl_gives`, `insl_past` -- the words a read command delivers, and what follows them when more
    are read than it has;
  * `Registers.lba_eq` -- the address registers hold the low 28 bits of the sector number.
-/
import Sprocket.SimpleFs.FaultFree

namespace Sprocket.Ata

open Bytes Prog
open SimpleFs (Sector)

/-! ## 1. The drive -/

inductive Direction where
  | read
  | write
  deriving DecidableEq, Repr

/-- A command in progress: its sector, and the number of words transferred. -/
structure Transfer where
  direction : Direction
  device : Bool
  lba : Nat
  done : Nat

/-- The address registers, ports 0x1f2 to 0x1f6. -/
structure Registers where
  count : UInt8
  low : UInt8
  mid : UInt8
  high : UInt8
  drive : UInt8

/-- The device the registers select: bit 4 of the drive register. -/
def Registers.device (r : Registers) : Bool := r.drive &&& 0x10 != 0

/-- The sector the registers address. -/
def Registers.lba (r : Registers) : Nat :=
  r.low.toNat + 2 ^ 8 * r.mid.toNat + 2 ^ 16 * r.high.toNat + 2 ^ 24 * (r.drive &&& 0x0f).toNat

/-- Eight bits of a sector number. -/
theorem toNat_shiftRight (s : UInt32) (k : UInt32) (hk : k.toNat < 32) :
    (s >>> k).toUInt8.toNat = s.toNat / 2 ^ k.toNat % 2 ^ 8 := by
  rw [UInt32.toNat_toUInt8, UInt32.toNat_shiftRight, Nat.mod_eq_of_lt hk, Nat.shiftRight_eq_div_pow]

/-- The registers hold the low 28 bits of a sector number, eight or four at a time. -/
theorem Registers.lba_eq {r : Registers} {s : Nat} (hlow : r.low.toNat = s % 2 ^ 8)
    (hmid : r.mid.toNat = s / 2 ^ 8 % 2 ^ 8) (hhigh : r.high.toNat = s / 2 ^ 16 % 2 ^ 8)
    (hdrive : (r.drive &&& 0x0f).toNat = s / 2 ^ 24 % 2 ^ 4) : r.lba = s % 2 ^ 28 := by
  rw [Registers.lba, hlow, hmid, hhigh, hdrive]
  omega

/-- A status that says ready (not `BSY`, `DRDY`) and reports no fault (`DF`, `ERR`). -/
abbrev ReadyStatus : Type := {s : UInt8 // s &&& 0xe1 = 0x40}

/-- `DRDY` alone. -/
def ReadyStatus.ready : ReadyStatus := ⟨0x40, by decide⟩

/-- The bits of a ready status under a mask. -/
theorem ReadyStatus.masked (s : ReadyStatus) {mask : UInt8} (h : 0xe1 &&& mask = mask) :
    s.val &&& mask = 0x40 &&& mask := by
  rw [← h, ← UInt8.and_assoc, s.property, h]

/-- The sectors of the two devices. -/
abbrev Media : Type := Bool → Nat → Sector

structure Drive where
  media : Media
  regs : Registers
  current : Option Transfer
  /-- What the status register shows, poll by poll. -/
  status : Nat → ReadyStatus
  polls : Nat
  /-- What the data port shows where no word is due. -/
  bus : Nat → UInt32
  strays : Nat

/-- The sectors with one of them replaced. -/
def Media.store (m : Media) (device : Bool) (lba : Nat) (x : Sector) : Media :=
  Function.update m device (Function.update (m device) lba x)

/-- Byte output to an address register. -/
def Registers.set (r : Registers) (port : Nat) (v : UInt8) : Registers :=
  match port with
  | 0x1f2 => { r with count := v }
  | 0x1f3 => { r with low := v }
  | 0x1f4 => { r with mid := v }
  | 0x1f5 => { r with high := v }
  | 0x1f6 => { r with drive := v }
  | _ => r

/-- The command a byte on the command register stands for. -/
def Registers.command (r : Registers) (v : UInt8) : Option Transfer :=
  if r.count ≠ 1 then none
  else if v = 0x20 then some ⟨.read, r.device, r.lba, 0⟩
  else if v = 0x30 then some ⟨.write, r.device, r.lba, 0⟩
  else none

/-- Byte output to a port. -/
def Drive.out (d : Drive) (port : Nat) (v : UInt8) : Drive :=
  if port = 0x1f7 then { d with current := d.regs.command v }
  else { d with regs := d.regs.set port v }

/-- A word read from the data port. -/
def Drive.inWord (d : Drive) : UInt32 × Drive :=
  match d.current with
  | some ⟨.read, device, lba, n⟩ =>
    if n < 128 then
      (u32At (d.media device lba).val (4 * n),
        { d with current := some ⟨.read, device, lba, n + 1⟩ })
    else (d.bus d.strays, { d with strays := d.strays + 1 })
  | _ => (d.bus d.strays, { d with strays := d.strays + 1 })

theorem length_setWord_sector {x : Sector} {n : Nat} (w : UInt32) (h : n < 128) :
    (setWord x.val n w).length = 512 := by
  rw [length_setWord w (by rw [x.property]; exact h), x.property]

/-- A word written to the data port. -/
def Drive.outWord (d : Drive) (w : UInt32) : Drive :=
  match d.current with
  | some ⟨.write, device, lba, n⟩ =>
    if h : n < 128 then
      { d with
        media := d.media.store device lba
          ⟨setWord (d.media device lba).val n w, length_setWord_sector w h⟩
        current := some ⟨.write, device, lba, n + 1⟩ }
    else d
  | _ => d

/-! ## 2. Port input and output as code -/

section Code

variable {ε : Type}

def outb (port : Nat) (v : UInt8) : Prog Drive ε Unit := modify fun d => d.out port v

/-- Poll the status register, 0x1f7, until its bits under `mask` are `value`. With these bits as
    every ready status has them the loop ends at the first poll. -/
def poll (mask value : UInt8) (h : ∀ s : ReadyStatus, s.val &&& mask = value) :
    Prog Drive ε UInt8
  | d =>
    let r := (d.status d.polls).val
    let d' := { d with polls := d.polls + 1 }
    if r &&& mask ≠ value then poll mask value h d' else (.ok r, d')
termination_by 0
decreasing_by
  rename_i hr
  exact absurd (h (d.status d.polls)) hr

/-- A word from the data port. -/
def inl : Prog Drive ε UInt32 := fun d => (.ok d.inWord.1, d.inWord.2)

/-- `insl` on the data port: `n` words. -/
def insl : Nat → Prog Drive ε (List UInt32)
  | 0 => pure []
  | n + 1 => do
    let w ← inl
    let ws ← insl n
    pure (w :: ws)

/-- `outsl` on the data port. -/
def outsl : List UInt32 → Prog Drive ε Unit
  | [] => pure ()
  | w :: ws => do
    modify fun d => d.outWord w
    outsl ws

end Code

/-! ## 3. What the drive does -/

/-- What decides the drive's further behaviour: its sectors, its registers and the current
    command. -/
def shown (d : Drive) : Media × Registers × Option Transfer := (d.media, d.regs, d.current)

section Rules

variable {ε : Type} {m : Media} {r : Registers} {c : Option Transfer}

/-- Polling returns a ready status and changes nothing that is shown. -/
theorem poll_then {α : Type} {mask value : UInt8} (h : ∀ s : ReadyStatus, s.val &&& mask = value)
    {k : UInt8 → Prog Drive ε α} {Q : Outcome ε α → Media × Registers × Option Transfer → Prop}
    (hk : ∀ s : ReadyStatus, Ends shown (k s.val) (m, r, c) Q) :
    Ends shown (poll mask value h >>= k) (m, r, c) Q := by
  refine ends_bind ?_
  intro d hd
  rw [poll, if_neg (not_not.mpr (h _))]
  have hrest := hk (d.status d.polls)
  rw [← hd] at hrest
  exact hrest

/-- Output to an address register. -/
theorem outb_register {port : Nat} (v : UInt8) (hport : port ≠ 0x1f7) :
    Gives shown (outb port v : Prog Drive ε Unit) (m, r, c) (.ok ()) (m, r.set port v, c) := by
  intro d hd
  obtain ⟨rfl, hrc⟩ := Prod.mk.inj hd
  obtain ⟨rfl, rfl⟩ := Prod.mk.inj hrc
  refine ⟨rfl, ?_⟩
  show shown (d.out port v) = _
  rw [Drive.out, if_neg hport]
  rfl

/-- A command supersedes the one before it. -/
theorem outb_command (v : UInt8) :
    Gives shown (outb 0x1f7 v : Prog Drive ε Unit) (m, r, c) (.ok ()) (m, r, r.command v) := by
  intro d hd
  obtain ⟨rfl, hrc⟩ := Prod.mk.inj hd
  obtain ⟨rfl, rfl⟩ := Prod.mk.inj hrc
  exact ⟨rfl, rfl⟩

variable {device : Bool} {lba : Nat}

/-- One word of a read command. -/
theorem inWord_gives {n : Nat} (h : n < 128) :
    Gives shown (inl : Prog Drive ε UInt32) (m, r, some ⟨.read, device, lba, n⟩)
      (.ok (u32At (m device lba).val (4 * n))) (m, r, some ⟨.read, device, lba, n + 1⟩) := by
  intro d hd
  obtain ⟨rfl, hrc⟩ := Prod.mk.inj hd
  obtain ⟨rfl, hc⟩ := Prod.mk.inj hrc
  simp [inl, Drive.inWord, hc, h, shown]

theorem drop_words {x : Sector} {k : Nat} (h : k < 128) :
    (words x.val).drop k = u32At x.val (4 * k) :: (words x.val).drop (k + 1) := by
  have hget := getElem?_words x.val k
  rw [x.property, if_pos (by omega)] at hget
  obtain ⟨hlt, hval⟩ := List.getElem?_eq_some_iff.mp hget
  rw [← hval, List.drop_eq_getElem_cons hlt]

/-- **The words a read command delivers**, from the `k`th on. -/
theorem insl_gives : ∀ (n k : Nat), k + n ≤ 128 →
    Gives shown (insl n : Prog Drive ε (List UInt32)) (m, r, some ⟨.read, device, lba, k⟩)
      (.ok (((words (m device lba).val).drop k).take n))
      (m, r, some ⟨.read, device, lba, k + n⟩)
  | 0, _, _ => gives_pure _
  | n + 1, k, h => by
      rw [drop_words (by omega), List.take_succ_cons, insl]
      refine (inWord_gives (by omega)).then ((insl_gives n (k + 1) (by omega)).then ?_)
      rw [Nat.add_right_comm, Nat.add_assoc]
      exact gives_pure _

/-! ### Reading past the sector -/

/-- What is shown of the drive, and what its data port shows where no word is due. -/
def exposed (d : Drive) : (Media × Registers × Option Transfer) × (Nat → UInt32) :=
  (shown d, d.bus)

/-- What is exposed of the drive, and the number of stray words read so far. -/
def counted (d : Drive) : ((Media × Registers × Option Transfer) × (Nat → UInt32)) × Nat :=
  (exposed d, d.strays)

/-- The data port where no word is due: what it shows, and how much of that has been read. -/
def floating (d : Drive) : (Nat → UInt32) × Nat := (d.bus, d.strays)

/-- The stray words `i` to `i + n - 1`. -/
def strayWords (bus : Nat → UInt32) (i n : Nat) : List UInt32 := (List.range' i n).map bus

/-- A list of stray words. -/
def Strays (bus : Nat → UInt32) (n : Nat) (ws : List UInt32) : Prop :=
  ws.length = n ∧ ∀ x ∈ ws, ∃ k, x = bus k

theorem length_strayWords (bus : Nat → UInt32) (i n : Nat) : (strayWords bus i n).length = n := by
  rw [strayWords, List.length_map, List.length_range']

theorem strays_strayWords (bus : Nat → UInt32) (i n : Nat) :
    Strays bus n (strayWords bus i n) := by
  refine ⟨length_strayWords bus i n, fun x hx => ?_⟩
  obtain ⟨k, _, rfl⟩ := List.mem_map.mp hx
  exact ⟨k, rfl⟩

section Counted

variable {bus : Nat → UInt32} {i : Nat}

theorem outb_floating (port : Nat) (v : UInt8) :
    Keeps floating (outb port v : Prog Drive ε Unit) (· = (bus, i)) := by
  intro b hb d hd
  subst hd
  rw [← hb]
  show floating (d.out port v) = floating d
  unfold Drive.out
  split <;> rfl

theorem poll_floating {mask value : UInt8} (h : ∀ s : ReadyStatus, s.val &&& mask = value) :
    Keeps floating (poll mask value h : Prog Drive ε UInt8) (· = (bus, i)) := by
  intro b hb d hd
  subst hd
  rw [poll, if_neg (not_not.mpr (h _))]
  exact hb

/-- Code that leaves the stray words alone. -/
theorem gives_counted {α : Type} {p : Prog Drive ε α} {v w : Media × Registers × Option Transfer}
    {o : Outcome ε α} (h : Gives shown p v o w) (hkeep : Keeps floating p (· = (bus, i))) :
    Gives counted p ((v, bus), i) o ((w, bus), i) := by
  intro d hd
  obtain ⟨hexposed, rfl⟩ := Prod.mk.inj hd
  obtain ⟨hshown, rfl⟩ := Prod.mk.inj hexposed
  obtain ⟨ho, hw⟩ := h d hshown
  obtain ⟨hbus, hstrays⟩ := Prod.mk.inj (hkeep _ rfl d rfl)
  exact ⟨ho, Prod.ext (Prod.ext hw hbus) hstrays⟩

theorem inWord_due {n : Nat} (h : n < 128) :
    Gives counted (inl : Prog Drive ε UInt32) (((m, r, some ⟨.read, device, lba, n⟩), bus), i)
      (.ok (u32At (m device lba).val (4 * n)))
      (((m, r, some ⟨.read, device, lba, n + 1⟩), bus), i) := by
  intro d hd
  obtain ⟨hexposed, rfl⟩ := Prod.mk.inj hd
  obtain ⟨hshown, rfl⟩ := Prod.mk.inj hexposed
  obtain ⟨ho, hw⟩ := inWord_gives (ε := ε) h d hshown
  have hcurrent : d.current = some ⟨.read, device, lba, n⟩ :=
    congrArg (fun v : Media × Registers × Option Transfer => v.2.2) hshown
  have hfloating : floating d.inWord.2 = floating d := by
    simp [Drive.inWord, hcurrent, h, floating]
  obtain ⟨hbus, hstrays⟩ := Prod.mk.inj hfloating
  exact ⟨ho, Prod.ext (Prod.ext hw hbus) hstrays⟩

/-- No word is due. -/
theorem inWord_stray (hc : ∀ dev l k, c = some ⟨.read, dev, l, k⟩ → 128 ≤ k) :
    Gives counted (inl : Prog Drive ε UInt32) (((m, r, c), bus), i) (.ok (bus i))
      (((m, r, c), bus), i + 1) := by
  intro d hd
  obtain ⟨hexposed, rfl⟩ := Prod.mk.inj hd
  obtain ⟨hshown, rfl⟩ := Prod.mk.inj hexposed
  obtain ⟨rfl, hrc⟩ := Prod.mk.inj hshown
  obtain ⟨rfl, rfl⟩ := Prod.mk.inj hrc
  have hword : d.inWord = (d.bus d.strays, { d with strays := d.strays + 1 }) := by
    unfold Drive.inWord
    split
    · next dev l k hk => rw [if_neg (Nat.not_lt.mpr (hc dev l k hk))]
    · rfl
  refine ⟨?_, ?_⟩
  · show Outcome.ok d.inWord.1 = _
    rw [hword]
  · show counted d.inWord.2 = _
    rw [hword]
    rfl

theorem insl_stray (hc : ∀ dev l k, c = some ⟨.read, dev, l, k⟩ → 128 ≤ k) : ∀ n i : Nat,
    Gives counted (insl n : Prog Drive ε (List UInt32)) (((m, r, c), bus), i)
      (.ok (strayWords bus i n)) (((m, r, c), bus), i + n)
  | 0, _ => gives_pure []
  | n + 1, i => by
      rw [insl, strayWords, List.range'_succ, List.map_cons]
      refine (inWord_stray hc).then ((insl_stray hc n (i + 1)).then ?_)
      rw [Nat.add_right_comm, Nat.add_assoc]
      exact gives_pure _

/-- **A longer `insl` delivers the rest of the sector, then stray words.** -/
theorem insl_past (n : Nat) : ∀ (j k : Nat), k + j = 128 →
    Gives counted (insl (j + n) : Prog Drive ε (List UInt32))
      (((m, r, some ⟨.read, device, lba, k⟩), bus), i)
      (.ok ((words (m device lba).val).drop k ++ strayWords bus i n))
      (((m, r, some ⟨.read, device, lba, 128⟩), bus), i + n)
  | 0, k, h => by
      have hk : k = 128 := by omega
      subst hk
      have hnil : (words (m device lba).val).drop 128 = [] := by
        rw [List.drop_eq_nil_iff, length_words, (m device lba).property]
      have hdone : ∀ dev l k, some (⟨.read, device, lba, 128⟩ : Transfer) =
          some ⟨.read, dev, l, k⟩ → 128 ≤ k := by
        intro dev l k e
        cases e
        exact Nat.le_refl _
      rw [hnil, Nat.zero_add]
      exact insl_stray hdone n i
  | j + 1, k, h => by
      rw [Nat.add_right_comm, insl, drop_words (by omega), List.cons_append]
      exact (inWord_due (by omega)).then
        ((insl_past n j (k + 1) (by omega)).then (gives_pure _))

end Counted

/-! ### Writing -/

/-- One word of a write command. -/
theorem outWord_gives {n : Nat} (w : UInt32) (h : n < 128) :
    Gives shown (modify fun d => d.outWord w : Prog Drive ε Unit)
      (m, r, some ⟨.write, device, lba, n⟩) (.ok ())
      (m.store device lba ⟨setWord (m device lba).val n w, length_setWord_sector w h⟩, r,
        some ⟨.write, device, lba, n + 1⟩) := by
  intro d hd
  obtain ⟨rfl, hrc⟩ := Prod.mk.inj hd
  obtain ⟨rfl, hc⟩ := Prod.mk.inj hrc
  refine ⟨rfl, ?_⟩
  show shown (d.outWord w) = _
  simp [Drive.outWord, hc, h, shown]

theorem Media.store_self (m : Media) (device : Bool) (lba : Nat) (x : Sector) :
    m.store device lba x device lba = x := by
  rw [Media.store, Function.update_self, Function.update_self]

theorem Media.store_store (m : Media) (device : Bool) (lba : Nat) (x y : Sector) :
    (m.store device lba x).store device lba y = m.store device lba y := by
  rw [Media.store, Media.store, Media.store, Function.update_self, Function.update_idem,
    Function.update_idem]

theorem Media.store_same (m : Media) (device : Bool) (lba : Nat) :
    m.store device lba (m device lba) = m := by
  rw [Media.store, Function.update_eq_self, Function.update_eq_self]

/-- **The words a write command takes**, from the `k`th on: they replace the sector's bytes from
    `4 * k` on. -/
theorem outsl_gives : ∀ (ws : List UInt32) (m : Media) (k : Nat) (x : Sector),
    k + ws.length ≤ 128 → x.val = splice (m device lba).val (4 * k) (ws.flatMap le32) →
    Gives shown (outsl ws : Prog Drive ε Unit) (m, r, some ⟨.write, device, lba, k⟩) (.ok ())
      (m.store device lba x, r, some ⟨.write, device, lba, k + ws.length⟩)
  | [], m, k, x, _, hx => by
      have hsame : x = m device lba := by
        apply Subtype.ext
        rw [hx, splice]
        simp
      rw [hsame, Media.store_same]
      exact gives_pure ()
  | w :: ws, m, k, x, h, hx => by
      rw [List.length_cons] at h
      have hk : k < 128 := by omega
      have hnext : x.val = splice ((m.store device lba
          ⟨setWord (m device lba).val k w, length_setWord_sector w hk⟩) device lba).val
          (4 * (k + 1)) (ws.flatMap le32) := by
        have hroom : 4 * k + (le32 w).length + (ws.flatMap le32).length ≤
            (m device lba).val.length := by
          rw [length_le32, length_flatMap_le32, (m device lba).property]
          omega
        have hpos : 4 * (k + 1) = 4 * k + (le32 w).length := by rw [length_le32]; omega
        rw [Media.store_self, hx, List.flatMap_cons, ← splice_splice_next hroom, hpos]
        rfl
      have ih := outsl_gives ws _ (k + 1) x (by omega) hnext
      rw [Media.store_store, Nat.add_right_comm, Nat.add_assoc] at ih
      exact (outWord_gives w hk).then ih

/-- **Words for anything but a write command are lost.** -/
theorem outsl_lost (ws : List UInt32) (h : ∀ t, c = some t → t.direction = .read) :
    Gives shown (outsl ws : Prog Drive ε Unit) (m, r, c) (.ok ()) (m, r, c) := by
  induction ws with
  | nil => exact gives_pure ()
  | cons w ws ih =>
    rw [outsl]
    refine Gives.then (a := ()) ?_ ih
    intro d hd
    obtain ⟨rfl, hrc⟩ := Prod.mk.inj hd
    obtain ⟨rfl, rfl⟩ := Prod.mk.inj hrc
    refine ⟨rfl, ?_⟩
    show shown (d.outWord w) = _
    unfold Drive.outWord
    split
    · next hc => cases h _ hc
    · rfl

end Rules

end Sprocket.Ata
