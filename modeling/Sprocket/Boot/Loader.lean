/-
  File:      Sprocket/Boot/Loader.lean
  Subject:   THE BOOT LOADER (`bootmain.rs`), and what reading a segment does to memory.

  The loader runs on the drive of Ata.lean and the memory of Lib/Memory.lean. It is compiled
  without overflow checks, so its pointers and counters are words that wrap; a loop is given a
  number of rounds and ends with `outOfRounds` when it needs more, which is how a loop that never
  ends shows.

  `readsect` reads one sector but takes 1024 words from the data port: 512 bytes of the sector,
  then 3584 bytes of whatever the bus shows. `readseg` starts a segment at the sector boundary
  below its offset, that many bytes below its address.

  * `Touch` -- what a piece of code leaves at one address: the byte that was there, a certain byte,
    or a stray one;
  * `readsect_gives` -- what reading a sector does, byte by byte;
  * `readseg_rule` -- the loop of `readseg`, for any invariant that a sector keeps;
  * `readsect_ends`, `readseg_ends` -- what a sector and a segment touch;
  * `readseg_hangs` -- a segment whose sectors reach the end of memory is read for ever.
-/
import Sprocket.Lib.Loop
import Sprocket.Lib.Memory
import Sprocket.Ata

namespace Sprocket.Boot

open Bytes Prog Ata Mem

/-! ## 1. The code -/

abbrev sectsize : UInt32 := 512
abbrev elfMagic : UInt32 := 0x464c457f

/-- The fields of the ELF header the loader reads. -/
structure Header where
  magic : UInt32
  entry : UInt32
  phoff : UInt32
  phnum : UInt16

/-- The fields of a program header the loader reads. -/
structure ProgramHeader where
  off : UInt32
  paddr : UInt32
  filesz : UInt32
  memsz : UInt32
  deriving DecidableEq

def Header.ofBytes (b : Nat → UInt8) : Header where
  magic := word b 0
  entry := word b 24
  phoff := word b 28
  phnum := half b 44

def ProgramHeader.ofBytes (b : Nat → UInt8) : ProgramHeader where
  off := word b 4
  paddr := word b 12
  filesz := word b 16
  memsz := word b 20

/-- `size_of::<ProgramHeader>()`. -/
abbrev programHeaderSize : UInt32 := 32

inductive LoadError where
  | outOfRounds
  deriving DecidableEq, Repr

abbrev Loader (α : Type) : Type := Prog (Drive × Mem) LoadError α

/-- The memory as it is. -/
def memory : Loader Mem := fun s => (.ok s.2, s)

def setMemory (f : Mem → Mem) : Loader Unit := modify fun s => (s.1, f s.2)

def waitdisk : Prog Drive LoadError Unit := do
  let _ ← poll 0xc0 0x40 fun s => s.masked (by decide)
  pure ()

/-- `readsect`, into the 1024 words at `dst`. -/
def readsect (dst offset : UInt32) : Loader Unit := do
  onFst waitdisk
  onFst (outb 0x1f2 1)
  onFst (outb 0x1f3 offset.toUInt8)
  onFst (outb 0x1f4 (offset >>> 8).toUInt8)
  onFst (outb 0x1f5 (offset >>> 16).toUInt8)
  onFst (outb 0x1f6 ((offset >>> 24) ||| 0xe0).toUInt8)
  onFst (outb 0x1f7 0x20)
  onFst waitdisk
  let ws ← onFst (insl 1024)
  setMemory fun m => m.write dst (ws.flatMap le32)

/-- One round of the loop of `readseg`. -/
def readsegRound (s : UInt32 × UInt32) : Loader (UInt32 × UInt32) := do
  readsect s.1 s.2
  pure (s.1 + sectsize, s.2 + 1)

/-- Read `count` bytes at `offset` of the kernel to `pa`. -/
def readseg (rounds : Nat) (pa count offset : UInt32) : Loader Unit := do
  let epa := pa + count
  let _ ← whileLoop (fun s => decide (s.1 < epa)) readsegRound .outOfRounds rounds
    (pa - offset % sectsize, offset / sectsize + 1)
  pure ()

/-- One round of the program-header loop: load the segment and move to the next header. -/
def loadSegment (rounds : Nat) (progHeader : UInt32) : Loader UInt32 := do
  let m ← memory
  let ph := ProgramHeader.ofBytes (m.record progHeader)
  readseg rounds ph.paddr ph.filesz ph.off
  -- the sizes are read from memory again
  let m ← memory
  let ph' := ProgramHeader.ofBytes (m.record progHeader)
  if ph'.filesz < ph'.memsz then
    setMemory fun m => m.fill (ph.paddr + ph'.filesz) 0 (ph'.memsz - ph'.filesz).toNat
  else pure ()
  pure (progHeader + programHeaderSize)

/-- `hello`: seven characters on the screen. -/
def hello : Loader Unit :=
  setMemory fun m => m.write 0xb8000
    [99, 0x0f, 111, 0x0f, 102, 0x0f, 102, 0x0f, 108, 0x0f, 111, 0x0f, 115, 0x0f]

/-- `bootmain`: the address it jumps to, or none when it returns. -/
def bootmain (rounds : Nat) : Loader (Option UInt32) := do
  hello
  readseg rounds 0x10000 4096 0
  let m ← memory
  let elfHeader := Header.ofBytes (m.record 0x10000)
  if elfHeader.magic ≠ elfMagic then pure none
  else do
    let progHeader := 0x10000 + elfHeader.phoff
    let endProgHeader := progHeader + programHeaderSize * elfHeader.phnum.toUInt32
    let _ ← whileLoop (fun p => decide (p < endProgHeader)) (loadSegment rounds) .outOfRounds rounds
      progHeader
    let m ← memory
    pure (some (Header.ofBytes (m.record 0x10000)).entry)

/-! ## 2. What is left at an address -/

/-- What a piece of code leaves at an address. -/
inductive Touch where
  /-- what was there before -/
  | keep
  | byte (b : UInt8)
  /-- a byte of a word the bus showed -/
  | stray
  deriving DecidableEq

/-- One piece of code after another. -/
def Touch.andThen : Touch → Touch → Touch
  | t, .keep => t
  | _, .byte b => .byte b
  | _, .stray => .stray

/-- What may be found at the address. -/
def Touch.Allows (bus : Nat → UInt32) : Touch → UInt8 → UInt8 → Prop
  | .keep, old, new => new = old
  | .byte b, _, new => new = b
  | .stray, _, new => ∃ k, new ∈ le32 (bus k)

theorem Touch.Allows.andThen {bus : Nat → UInt32} {t u : Touch} {a b c : UInt8}
    (ht : t.Allows bus a b) (hu : u.Allows bus b c) : (t.andThen u).Allows bus a c := by
  cases u with
  | keep =>
    have hc : c = b := hu
    subst hc
    exact ht
  | byte v => exact hu
  | stray => exact hu

/-- One piece of code after another, over the whole memory. -/
theorem Touch.allows_andThen {bus : Nat → UInt32} {t u : UInt32 → Touch} {a b c : Mem}
    (ht : ∀ x, (t x).Allows bus (a x) (b x)) (hu : ∀ x, (u x).Allows bus (b x) (c x)) (x : UInt32) :
    ((t x).andThen (u x)).Allows bus (a x) (c x) :=
  (ht x).andThen (hu x)

/-- What one sector, read to `pa`, leaves at `x`. -/
def sectorTouch (media : Media) (pa : UInt32) (sector : Nat) (x : UInt32) : Touch :=
  if dist pa x < 512 then .byte ((media false sector).val.getD (dist pa x) 0)
  else if dist pa x < 4096 then .stray else .keep

/-- What `n` sectors, read to `pa` one after the other, leave at `x`. -/
def readTouch (media : Media) (pa : UInt32) (sector n : Nat) (x : UInt32) : Touch :=
  if dist pa x < 512 * n then
    .byte ((media false (sector + dist pa x / 512)).val.getD (dist pa x % 512) 0)
  else if 0 < n ∧ dist pa x < 512 * n + 3584 then .stray else .keep

theorem readTouch_zero (media : Media) (pa : UInt32) (sector : Nat) (x : UInt32) :
    readTouch media pa sector 0 x = .keep := by
  simp [readTouch]

theorem readTouch_byte {media : Media} {pa x : UInt32} {sector n : Nat}
    (h : dist pa x < 512 * n) : readTouch media pa sector n x =
      .byte ((media false (sector + dist pa x / 512)).val.getD (dist pa x % 512) 0) :=
  if_pos h

theorem readTouch_keep {media : Media} {pa x : UInt32} {sector n : Nat}
    (h : 512 * n + 3584 ≤ dist pa x) : readTouch media pa sector n x = .keep := by
  rw [readTouch, if_neg (by omega), if_neg (by omega)]

/-- **Each sector overwrites the stray bytes of the one before it.** -/
theorem readTouch_succ (media : Media) (pa : UInt32) (sector : Nat) {n : Nat} (x : UInt32)
    (h : 512 * n + 4096 ≤ 2 ^ 32) :
    (readTouch media pa sector n x).andThen
      (sectorTouch media (pa + UInt32.ofNat (512 * n)) (sector + n) x) =
    readTouch media pa sector (n + 1) x := by
  have hd := dist_lt pa x
  have hdist := dist_add (a := pa) (x := x) (k := 512 * n) (by omega)
  unfold sectorTouch
  rw [hdist]
  by_cases h1 : dist pa x < 512 * n
  · -- below the new sector, which ends before it reaches `x` from above
    rw [if_neg (by omega : ¬ 512 * n ≤ dist pa x), if_neg (by omega), if_neg (by omega),
      readTouch_byte h1, readTouch_byte (by omega)]
    rfl
  · rw [if_pos (by omega : 512 * n ≤ dist pa x)]
    by_cases h2 : dist pa x < 512 * (n + 1)
    · have hdiv : dist pa x / 512 = n := by omega
      have hmod : dist pa x % 512 = dist pa x - 512 * n := by omega
      rw [if_pos (by omega), readTouch_byte h2, hdiv, hmod]
      rfl
    · rw [if_neg (by omega : ¬ dist pa x - 512 * n < 512)]
      by_cases h3 : dist pa x < 512 * (n + 1) + 3584
      · have hstray : readTouch media pa sector (n + 1) x = .stray := by
          rw [readTouch, if_neg h2, if_pos ⟨by omega, h3⟩]
        rw [if_pos (by omega : dist pa x - 512 * n < 4096), hstray]
        rfl
      · rw [if_neg (by omega : ¬ dist pa x - 512 * n < 4096), readTouch_keep (by omega),
          readTouch_keep (by omega)]
        rfl

/-! ## 3. Reading a sector -/

/-- What the loader's results depend on: the sectors, the stray words, and memory. -/
abbrev bootView : Drive × Mem → (Media × (Nat → UInt32)) × Mem := onView fun d => (d.media, d.bus)

/-- The same, with the number of stray words read so far: what decides every byte. -/
abbrev countView : Drive × Mem → ((Media × (Nat → UInt32)) × Nat) × Mem :=
  onView fun d => ((d.media, d.bus), d.strays)

section Rules

variable {m : Media} {r : Registers} {c : Option Transfer} {bus : Nat → UInt32} {i : Nat}
  {mem : Mem}

section Memory

variable {υ : Type} {view : Drive → υ} {v : υ}

theorem gives_memory : Gives (onView view) memory (v, mem) (.ok mem) (v, mem) := by
  intro s hs
  exact ⟨congrArg Outcome.ok (congrArg Prod.snd hs), hs⟩

theorem gives_setMemory (f : Mem → Mem) :
    Gives (onView view) (setMemory f) (v, mem) (.ok ()) (v, f mem) := by
  refine gives_modify_view fun s hs => ?_
  obtain ⟨hd, hmem⟩ := Prod.mk.inj hs
  show (view s.1, f s.2) = (v, f mem)
  rw [hd, hmem]

end Memory

theorem waitdisk_gives :
    Gives counted waitdisk (((m, r, c), bus), i) (.ok ()) (((m, r, c), bus), i) := by
  refine gives_counted ?_ (keeps_bind (poll_floating _) fun _ => keeps_pure ())
  exact poll_then _ fun _ => gives_pure ()

theorem outb_register_counted {port : Nat} (v : UInt8) (hport : port ≠ 0x1f7) :
    Gives counted (outb port v : Prog Drive LoadError Unit) (((m, r, c), bus), i) (.ok ())
      (((m, r.set port v, c), bus), i) :=
  gives_counted (outb_register v hport) (outb_floating port v)

theorem outb_command_counted (v : UInt8) :
    Gives counted (outb 0x1f7 v : Prog Drive LoadError Unit) (((m, r, c), bus), i) (.ok ())
      (((m, r, r.command v), bus), i) :=
  gives_counted (outb_command v) (outb_floating 0x1f7 v)

/-- The registers `readsect` sets. -/
def sectRegs (offset : UInt32) : Registers where
  count := 1
  low := offset.toUInt8
  mid := (offset >>> 8).toUInt8
  high := (offset >>> 16).toUInt8
  drive := ((offset >>> 24) ||| 0xe0).toUInt8

/-- The drive register holds bits 24 to 27 of the sector number and selects device 0. -/
theorem drive_register : ∀ n : Fin 16,
    (((UInt32.ofNat n ||| 0xe0).toUInt8 &&& 0x0f).toNat = n.val) ∧
    (((UInt32.ofNat n ||| 0xe0).toUInt8 &&& 0x10) != 0) = false := by
  decide

theorem sectRegs_command {offset : UInt32} (h : offset.toNat < 2 ^ 28) :
    (sectRegs offset).command 0x20 = some ⟨.read, false, offset.toNat, 0⟩ := by
  have hshift : (offset >>> 24).toNat = offset.toNat / 2 ^ 24 := by
    have h24 : (24 : UInt32).toNat % 32 = 24 := rfl
    rw [UInt32.toNat_shiftRight, h24, Nat.shiftRight_eq_div_pow]
  have hlt : offset.toNat / 2 ^ 24 < 16 := by omega
  have htop : offset >>> 24 = UInt32.ofNat (offset.toNat / 2 ^ 24) := by
    rw [← hshift, UInt32.ofNat_toNat]
  obtain ⟨hnibble, hdevice⟩ := drive_register ⟨offset.toNat / 2 ^ 24, hlt⟩
  dsimp only at hnibble hdevice
  rw [← htop] at hnibble hdevice
  have hlba : (sectRegs offset).lba = offset.toNat := by
    rw [Registers.lba_eq (r := sectRegs offset) (s := offset.toNat) offset.toNat_toUInt8
      (toNat_shiftRight offset 8 (by decide)) (toNat_shiftRight offset 16 (by decide)) ?_]
    · exact Nat.mod_eq_of_lt h
    · rw [show (sectRegs offset).drive = ((offset >>> 24) ||| 0xe0).toUInt8 from rfl, hnibble]
      omega
  have hdev : (sectRegs offset).device = false := hdevice
  rw [← hlba, ← hdev]
  rfl

/-- The bytes `readsect` stores: a sector, and the 896 words that follow on the bus. -/
def sectBytes (m : Media) (bus : Nat → UInt32) (sector i : Nat) : List UInt8 :=
  (m false sector).val ++ (strayWords bus i 896).flatMap le32

theorem length_strayBytes (bus : Nat → UInt32) (i : Nat) :
    ((strayWords bus i 896).flatMap le32).length = 3584 := by
  rw [length_flatMap_le32, length_strayWords]

/-- A sector in memory: nothing but the 4096 bytes from `dst` on changes. -/
theorem write_sectBytes (dst x : UInt32) (sector : Nat) :
    mem.write dst (sectBytes m bus sector i) x =
      if dist dst x < 512 then (m false sector).val.getD (dist dst x) 0
      else (((strayWords bus i 896).flatMap le32)[dist dst x - 512]?).getD (mem x) := by
  have hsector := (m false sector).property
  have hbound : (sectBytes m bus sector i).length ≤ 2 ^ 32 := by
    rw [sectBytes, List.length_append, hsector, length_strayBytes]
    decide
  rw [write_apply _ _ _ _ hbound, sectBytes]
  by_cases h : dist dst x < 512
  · have hin : dist dst x < (m false sector).val.length := by rw [hsector]; exact h
    rw [if_pos h, List.getElem?_append_left hin, List.getD_eq_getElem?_getD,
      List.getElem?_eq_getElem hin]
    rfl
  · rw [if_neg h, List.getElem?_append_right (by rw [hsector]; omega), hsector]

/-- The bytes of a sector and the stray ones behind it, as a touch. -/
theorem write_sector_allows (dst x : UInt32) (sector : Nat) :
    (sectorTouch m dst sector x).Allows bus (mem x)
      (mem.write dst (sectBytes m bus sector i) x) := by
  rw [write_sectBytes]
  unfold sectorTouch
  by_cases h1 : dist dst x < 512
  · rw [if_pos h1, if_pos h1]
    rfl
  · rw [if_neg h1, if_neg h1]
    by_cases h2 : dist dst x < 4096
    · have hin : dist dst x - 512 < ((strayWords bus i 896).flatMap le32).length := by
        rw [length_strayBytes]
        omega
      rw [if_pos h2, List.getElem?_eq_getElem hin]
      obtain ⟨w, hw, hmem⟩ := List.mem_flatMap.mp (List.getElem_mem hin)
      obtain ⟨k, rfl⟩ := (strays_strayWords bus i 896).2 w hw
      exact ⟨k, hmem⟩
    · rw [if_neg h2, List.getElem?_eq_none (by rw [length_strayBytes]; omega)]
      rfl

/-- **What reading a sector does.** -/
theorem readsect_gives (dst : UInt32) {offset : UInt32} (h : offset.toNat < 2 ^ 28) :
    Gives countView (readsect dst offset) (((m, bus), i), mem) (.ok ())
      (((m, bus), i + 896), mem.write dst (sectBytes m bus offset.toNat i)) := by
  refine ends_coarsen (onView counted) (fun u => (((u.1.1.1.1, u.1.1.2), u.1.2), u.2))
    (fun s => rfl) ?_
  intro u hu
  obtain ⟨⟨⟨⟨m, r, c⟩, bus⟩, i⟩, mem⟩ := u
  cases hu
  unfold readsect
  refine waitdisk_gives.onFst.then ?_
  refine (outb_register_counted _ (by decide)).onFst.then ?_
  refine (outb_register_counted _ (by decide)).onFst.then ?_
  refine (outb_register_counted _ (by decide)).onFst.then ?_
  refine (outb_register_counted _ (by decide)).onFst.then ?_
  refine (outb_register_counted _ (by decide)).onFst.then ?_
  refine (outb_command_counted _).onFst.then (waitdisk_gives.onFst.then ?_)
  show Ends (onView counted) (onFst (insl (128 + 896)) >>= _)
    ((((m, sectRegs offset, (sectRegs offset).command 0x20), bus), i), mem) _
  rw [sectRegs_command h]
  refine (insl_past 896 128 0 rfl).onFst.then ((gives_setMemory _).ends ⟨rfl, ?_⟩)
  have hbytes : (words (m false offset.toNat).val ++ strayWords bus i 896).flatMap le32 =
      sectBytes m bus offset.toNat i := by
    have hwhole : (m false offset.toNat).val.length % 4 = 0 := by
      rw [(m false offset.toNat).property]
    rw [List.flatMap_append, flatMap_le32_words hwhole, sectBytes]
  rw [← hbytes]
  rfl

/-- **What reading a sector touches.** -/
theorem readsect_ends (dst : UInt32) {offset : UInt32} (h : offset.toNat < 2 ^ 28) :
    Ends bootView (readsect dst offset) ((m, bus), mem) fun o w =>
      o = .ok () ∧ w.1 = (m, bus) ∧
      ∀ x, (sectorTouch m dst offset.toNat x).Allows bus (mem x) (w.2 x) := by
  refine ends_coarsen countView (fun u => (u.1.1, u.2)) (fun s => rfl) ?_
  intro u hu
  obtain ⟨⟨⟨m, bus⟩, i⟩, mem⟩ := u
  cases hu
  exact (readsect_gives dst h).ends ⟨rfl, rfl, fun x => write_sector_allows dst x _⟩

/-! ## 4. Reading a segment -/

/-- The number of sectors `readseg` reads for `count` bytes at `offset`. -/
def sectorsFor (count offset : UInt32) : Nat :=
  (count.toNat + offset.toNat % 512 + 511) / 512

/-- Where `readseg` stores the first sector. -/
def segStart (pa offset : UInt32) : UInt32 := pa - offset % sectsize

theorem toNat_segStart {pa offset : UInt32} (h : offset.toNat % 512 ≤ pa.toNat) :
    (segStart pa offset).toNat = pa.toNat - offset.toNat % 512 := by
  have hpa := pa.toNat_lt
  have hmod : (offset % sectsize).toNat = offset.toNat % 512 := UInt32.toNat_mod offset sectsize
  rw [segStart, UInt32.toNat_sub, hmod]
  omega

theorem toNat_firstSector (offset : UInt32) :
    (offset / sectsize + 1).toNat = offset.toNat / 512 + 1 := by
  have hoff := offset.toNat_lt
  have hdiv : (offset / sectsize).toNat = offset.toNat / 512 := UInt32.toNat_div offset sectsize
  have h1 : (1 : UInt32).toNat = 1 := rfl
  rw [UInt32.toNat_add, hdiv, h1]
  omega

section Segment

variable {pa count offset : UInt32}

/-- The local variables of `readseg` after `k` sectors, with `left` rounds left of `rounds`. -/
structure Place (pa count offset : UInt32) (rounds left k : Nat) (s : UInt32 × UInt32) :
    Prop where
  le : k ≤ sectorsFor count offset
  dst : s.1 = segStart pa offset + UInt32.ofNat (512 * k)
  sector : s.2.toNat = offset.toNat / 512 + 1 + k
  budget : sectorsFor count offset < rounds → sectorsFor count offset - k < left

namespace Place

variable {rounds left k : Nat} {s : UInt32 × UInt32}

/-- Before the first sector. -/
theorem start (rounds : Nat) :
    Place pa count offset rounds rounds 0 (segStart pa offset, offset / sectsize + 1) :=
  ⟨Nat.zero_le _, (UInt32.add_zero _).symm, toNat_firstSector offset, fun hb => hb⟩

/-- Sector numbers fit the 28 bits of the registers. -/
theorem sector_lt (h : Place pa count offset rounds left k s) : s.2.toNat < 2 ^ 28 := by
  have hoff := offset.toNat_lt
  have hcount := count.toNat_lt
  have hn : sectorsFor count offset = (count.toNat + offset.toNat % 512 + 511) / 512 := rfl
  have hle := h.le
  rw [h.sector]
  omega

/-- After one more sector. -/
theorem next (h : Place pa count offset rounds (left + 1) k s)
    (hk : k < sectorsFor count offset) :
    Place pa count offset rounds left (k + 1) (s.1 + sectsize, s.2 + 1) := by
  have hlt := h.sector_lt
  refine ⟨hk, ?_, ?_, fun hb => ?_⟩
  · show s.1 + sectsize = _
    have hnext : UInt32.ofNat (512 * (k + 1)) = UInt32.ofNat (512 * k) + sectsize := by
      rw [Nat.mul_succ, UInt32.ofNat_add]
      rfl
    rw [h.dst, hnext, UInt32.add_assoc]
  · have h1 : (1 : UInt32).toNat = 1 := rfl
    show (s.2 + 1).toNat = _
    rw [UInt32.toNat_add, h1, Nat.mod_eq_of_lt (by omega), h.sector, Nat.add_assoc]
  · have := h.budget hb
    omega

/-- The loop goes on exactly while there is a sector to read. -/
theorem lt_end_iff (h : Place pa count offset rounds left k s)
    (hlow : offset.toNat % 512 ≤ pa.toNat) (hfit : pa.toNat + count.toNat < 2 ^ 32)
    (hwrap : (segStart pa offset).toNat + 512 * sectorsFor count offset < 2 ^ 32) :
    s.1 < pa + count ↔ k < sectorsFor count offset := by
  have hstart := toNat_segStart hlow
  have hepa : (pa + count).toNat = pa.toNat + count.toNat := by
    rw [UInt32.toNat_add]
    omega
  have hn : sectorsFor count offset = (count.toNat + offset.toNat % 512 + 511) / 512 := rfl
  have hle := h.le
  have hdst : s.1.toNat = (segStart pa offset).toNat + 512 * k := by
    rw [h.dst, UInt32.toNat_add, UInt32.toNat_ofNat']
    omega
  rw [UInt32.lt_iff_toNat_lt, hdst, hepa]
  omega

end Place

/-- **The rule for `readseg`**: an invariant that knows the place of the loop and that every sector
    keeps. Enough rounds are enough, and the loop ends with the invariant after the last sector. -/
theorem readseg_rule {υ : Type} {view : Drive × Mem → υ}
    {I : Nat → Nat → UInt32 × UInt32 → υ → Prop} {v : υ} (rounds : Nat)
    (hlow : offset.toNat % 512 ≤ pa.toNat) (hfit : pa.toNat + count.toNat < 2 ^ 32)
    (hwrap : (segStart pa offset).toNat + 512 * sectorsFor count offset < 2 ^ 32)
    (hplace : ∀ left k s w, I left k s w → Place pa count offset rounds left k s)
    (hround : ∀ left k s w, I (left + 1) k s w → k < sectorsFor count offset →
      Ends view (readsegRound s) w fun o w' => ∃ s', o = .ok s' ∧ I left (k + 1) s' w')
    (hstart : I rounds 0 (segStart pa offset, offset / sectsize + 1) v) :
    Ends view (readseg rounds pa count offset) v fun o w =>
      (sectorsFor count offset < rounds → o = .ok ()) ∧
      (o = .ok () → ∃ left s, I left (sectorsFor count offset) s w) := by
  have hloop : Ends view (whileLoop (fun s => decide (s.1 < pa + count)) readsegRound
      LoadError.outOfRounds rounds (segStart pa offset, offset / sectsize + 1)) v
      fun o w => (sectorsFor count offset < rounds → ∃ s, o = .ok s) ∧
        ((∃ s, o = .ok s) → ∃ left s, I left (sectorsFor count offset) s w) := by
    refine ends_whileLoop (I := fun left s w => ∃ k, I left k s w) ?_ ?_ ?_ _ _ _ ⟨0, hstart⟩
    · intro s w ⟨k, h⟩
      refine ⟨fun hb => absurd ((hplace _ _ _ _ h).budget hb) (Nat.not_lt_zero _), fun hok => ?_⟩
      obtain ⟨s', hs'⟩ := hok
      cases hs'
    · intro left s w ⟨k, h⟩ hc
      have hk := ((hplace _ _ _ _ h).lt_end_iff hlow hfit hwrap).mp (of_decide_eq_true hc)
      refine ends_mono (hround left k s w h hk) fun o w' hw' => ?_
      obtain ⟨s', rfl, hs'⟩ := hw'
      exact ⟨k + 1, hs'⟩
    · intro left s w ⟨k, h⟩ hc
      have hp := hplace _ _ _ _ h
      have hge := mt (hp.lt_end_iff hlow hfit hwrap).mpr (of_decide_eq_false hc)
      have hk : k = sectorsFor count offset := Nat.le_antisymm hp.le (Nat.le_of_not_lt hge)
      subst hk
      exact ⟨fun _ => ⟨s, rfl⟩, fun _ => ⟨_, s, h⟩⟩
  unfold readseg
  refine ends_bind_of hloop ?_ (fun e w hw => ?_) (fun w hw => ?_)
  · intro s w hw
    exact ends_pure ⟨fun _ => rfl, fun _ => hw.2 ⟨s, rfl⟩⟩
  · refine ⟨fun hb => ?_, nofun⟩
    obtain ⟨s, hs⟩ := hw.1 hb
    cases hs
  · refine ⟨fun hb => ?_, nofun⟩
    obtain ⟨s, hs⟩ := hw.1 hb
    cases hs

/-- The loop of `readseg` after `k` sectors, with `left` rounds left of `rounds`. -/
structure Reading (m : Media) (bus : Nat → UInt32) (mem : Mem) (pa count offset : UInt32)
    (rounds left k : Nat) (s : UInt32 × UInt32) (w : (Media × (Nat → UInt32)) × Mem) : Prop
    extends Place pa count offset rounds left k s where
  drive : w.1 = (m, bus)
  touched : ∀ x, (readTouch m (segStart pa offset) (offset.toNat / 512 + 1) k x).Allows bus
    (mem x) (w.2 x)

namespace Reading

variable {rounds left k : Nat} {s : UInt32 × UInt32} {w : (Media × (Nat → UInt32)) × Mem}

/-- Before the first sector. -/
theorem start (rounds : Nat) :
    Reading m bus mem pa count offset rounds rounds 0
      (segStart pa offset, offset / sectsize + 1) ((m, bus), mem) := by
  refine ⟨Place.start rounds, rfl, fun x => ?_⟩
  rw [readTouch_zero]
  rfl

/-- One more sector. -/
theorem round (h : Reading m bus mem pa count offset rounds (left + 1) k s w)
    (hk : k < sectorsFor count offset)
    (hroom : 512 * sectorsFor count offset + 4096 ≤ 2 ^ 32) :
    Ends bootView (readsegRound s) w fun o w' => ∃ s', o = .ok s' ∧
      Reading m bus mem pa count offset rounds left (k + 1) s' w' := by
  refine ends_at h.drive ?_
  refine ends_bind_of (readsect_ends s.1 h.sector_lt) ?_ (fun e w' hw' => nomatch hw'.1)
    (fun w' hw' => nomatch hw'.1)
  intro _ w' ⟨_, hdrive', htouch⟩
  refine ends_pure ⟨_, rfl, h.next hk, hdrive', fun x => ?_⟩
  have hx := (h.touched x).andThen (htouch x)
  rw [h.dst, h.sector, readTouch_succ _ _ _ _ (by omega)] at hx
  exact hx

end Reading

/-- **What reading a segment touches**: with enough rounds the loop ends, and if it ends, the
    sectors are in memory. -/
theorem readseg_ends (rounds : Nat) (hlow : offset.toNat % 512 ≤ pa.toNat)
    (hroom : 512 * sectorsFor count offset + 4096 ≤ 2 ^ 32)
    (hfit : pa.toNat + count.toNat < 2 ^ 32)
    (hwrap : (segStart pa offset).toNat + 512 * sectorsFor count offset < 2 ^ 32) :
    Ends bootView (readseg rounds pa count offset) ((m, bus), mem) fun o w =>
      (sectorsFor count offset < rounds → o = .ok ()) ∧
      (o = .ok () → w.1 = (m, bus) ∧ ∀ x,
        (readTouch m (segStart pa offset) (offset.toNat / 512 + 1) (sectorsFor count offset)
          x).Allows bus (mem x) (w.2 x)) := by
  have hstart : Reading m bus mem pa count offset rounds rounds 0
      (segStart pa offset, offset / sectsize + 1) ((m, bus), mem) := Reading.start rounds
  refine ends_mono (readseg_rule rounds hlow hfit hwrap (fun _ _ _ _ h => h.toPlace)
    (fun _ _ _ _ h hk => h.round hk hroom) hstart) fun o w h => ⟨h.1, fun hok => ?_⟩
  obtain ⟨_, _, hlast⟩ := h.2 hok
  exact ⟨hlast.drive, hlast.touched⟩

/-- **A segment whose last sector ends at or past the end of memory is never done**: the pointer
    wraps, and none of the values it then takes is as large as the end of the segment. -/
theorem readseg_hangs (rounds : Nat) (hlow : offset.toNat % 512 ≤ pa.toNat)
    (hfit : pa.toNat + count.toNat < 2 ^ 32)
    (hwrap : 2 ^ 32 ≤ (segStart pa offset).toNat + 512 * sectorsFor count offset)
    (v : (Media × (Nat → UInt32)) × Mem) :
    Ends bootView (readseg rounds pa count offset) v fun o _ => o ≠ .ok () := by
  have hstart := toNat_segStart hlow
  have hepa : (pa + count).toNat = pa.toNat + count.toNat := by
    rw [UInt32.toNat_add]
    omega
  have hn : sectorsFor count offset = (count.toNat + offset.toNat % 512 + 511) / 512 := rfl
  have hloop : Ends bootView (whileLoop (fun s => decide (s.1 < pa + count)) readsegRound
      LoadError.outOfRounds rounds (segStart pa offset, offset / sectsize + 1)) v
      fun o _ => ∀ s, o ≠ .ok s := by
    -- the pointer keeps its place within a sector
    refine ends_whileLoop
      (I := fun _ s _ => s.1.toNat % 512 = (segStart pa offset).toNat % 512)
      (fun _ _ _ => nofun) ?_ ?_ _ _ _ rfl
    · intro _ s w hs _
      refine ends_bind_of (P := fun _ _ => True) (fun _ _ => trivial) ?_ (fun _ _ _ => nofun)
        (fun _ _ => nofun)
      intro _ w' _
      refine ends_pure ?_
      have hsize : sectsize.toNat = 512 := rfl
      show (s.1 + sectsize).toNat % 512 = _
      rw [UInt32.toNat_add, hsize]
      omega
    · intro _ s w hs hc
      have hlt := s.1.toNat_lt
      have hge := of_decide_eq_false hc
      rw [UInt32.lt_iff_toNat_lt, hepa] at hge
      omega
  unfold readseg
  exact ends_bind_of hloop (fun s _ hs => absurd rfl (hs s)) (fun _ _ _ => nofun)
    (fun _ _ => nofun)

end Segment

end Rules

end Sprocket.Boot
