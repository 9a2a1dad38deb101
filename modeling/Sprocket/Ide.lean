/-
  File:      Sprocket/Ide.lean
  Subject:   THE IDE DRIVER (`ide.rs`) against the drive it talks to.

  `Ide::read` and `Ide::write` are sequences of port operations on the drive of Ata.lean. A write
  of less than a sector is a read-modify-write: it issues the write command, then READS the sector
  -- a command of its own, which supersedes the first -- and sends the merged sector to the data
  port of a drive whose current command is the read.

  * `read_gives` -- `read` delivers the sector, for a buffer of any length;
  * `write_full`, `write_short` -- a write of at least a sector stores it; a shorter one returns
    `Ok` and stores nothing;
  * `ide_disk_contract_iff` -- so the driver meets the contract of a disk exactly where the sector
    is written in full, or already starts with the buffer.

  The `busy` flag is written and never read, and is left out.
-/
import Sprocket.Ata

namespace Sprocket.Ide

open Bytes Prog Ata
open SimpleFs (Sector Disk DiskError)

abbrev sectorSize : Nat := 512
abbrev ideBsy : UInt8 := 0x80
abbrev ideDrdy : UInt8 := 0x40
abbrev ideDf : UInt8 := 0x20
abbrev ideErr : UInt8 := 0x01
abbrev ideCmdRead : UInt8 := 0x20
abbrev ideCmdWrite : UInt8 := 0x30

/-! ## 1. The driver -/

/-- `wait`: poll the drive until it is ready. -/
def wait : Prog Drive DiskError Unit := do
  let r ← poll (ideBsy ||| ideDrdy) ideDrdy fun s => s.masked (by decide)
  if r &&& (ideDf ||| ideErr) = 0 then pure () else fail .ioError

/-- `ide_cmd`: the registers of a one-sector command. -/
def ideCmd (device sector : UInt32) : Prog Drive DiskError Unit := do
  outb 0x1f2 (UInt8.ofNat (SimpleFs.blockSize / sectorSize))
  require (SimpleFs.blockSize = sectorSize)
  outb 0x1f3 (sector.toUInt8 &&& 0xff)
  outb 0x1f4 ((sector >>> 8).toUInt8 &&& 0xff)
  outb 0x1f5 ((sector >>> 16).toUInt8 &&& 0xff)
  outb 0x1f6 ((0xe0 : UInt8) ||| (device &&& 0x1).toUInt8 <<< 4 |||
    ((sector >>> 24).toUInt8 &&& 0x0f))

def read (device sector : UInt32) : Prog (Drive × List UInt8) DiskError Unit := do
  onFst wait
  onFst (ideCmd device sector)
  onFst (outb 0x1f7 ideCmdRead)
  onFst wait
  let s ← get
  if sectorSize ≤ s.2.length then do
    let ws ← onFst (insl (sectorSize / 4))
    modify fun s => (s.1, splice s.2 0 (ws.flatMap le32))
  else do
    -- the whole sector is read and truncated to the length of the buffer
    let ws ← onFst (insl (sectorSize / 4))
    modify fun s => (s.1, splice s.2 0 ((ws.flatMap le32).take s.2.length))

def write (buffer : List UInt8) (device sector : UInt32) : Prog Drive DiskError Nat := do
  let _ ← attempt wait
  ideCmd device sector
  outb 0x1f7 ideCmdWrite
  if sectorSize ≤ buffer.length then
    outsl (words (buffer.take sectorSize))
  else do
    let r ← withLocal (List.replicate sectorSize 0) (read device sector)
    -- the first bytes of the sector are replaced, the others kept
    let tmpBuf := splice r.2 0 (buffer.take r.2.length)
    require (tmpBuf.length = sectorSize)
    outsl (words (tmpBuf.take sectorSize))
  wait
  pure (min sectorSize buffer.length)

/-! ## 2. The registers of a command -/

/-- The device a device number selects: its lowest bit. -/
def deviceOf (device : UInt32) : Bool := device &&& 1 != 0

/-- The registers after `ide_cmd`. -/
def cmdRegs (device sector : UInt32) : Registers where
  count := 1
  low := sector.toUInt8 &&& 0xff
  mid := (sector >>> 8).toUInt8 &&& 0xff
  high := (sector >>> 16).toUInt8 &&& 0xff
  drive := (0xe0 : UInt8) ||| (device &&& 0x1).toUInt8 <<< 4 ||| ((sector >>> 24).toUInt8 &&& 0x0f)

/-- The fields of the drive register do not overlap. -/
theorem drive_fields : ∀ (d : Fin 2) (n : Fin 16),
    ((0xe0 : UInt8) ||| UInt8.ofNat d <<< 4 ||| UInt8.ofNat n) &&& 0x0f = UInt8.ofNat n ∧
    (((0xe0 : UInt8) ||| UInt8.ofNat d <<< 4 ||| UInt8.ofNat n) &&& 0x10 != 0) = (d.val == 1) := by
  decide

theorem and_0x0f (x : UInt8) : x &&& 0x0f = UInt8.ofNat (x.toNat % 16) := by
  apply UInt8.toNat.inj
  rw [UInt8.toNat_and, UInt8.toNat_ofNat']
  have h : x.toNat &&& 15 = x.toNat % 16 := Nat.and_two_pow_sub_one_eq_mod x.toNat 4
  have h15 : (0x0f : UInt8).toNat = 15 := rfl
  rw [h15, h]
  omega

theorem and_0xff (x : UInt8) : x &&& 0xff = x := by
  apply UInt8.toNat.inj
  have h : x.toNat &&& 255 = x.toNat % 256 := Nat.and_two_pow_sub_one_eq_mod x.toNat 8
  have h255 : (0xff : UInt8).toNat = 255 := rfl
  rw [UInt8.toNat_and, h255, h]
  exact Nat.mod_eq_of_lt x.toNat_lt

theorem and_one_toUInt8 (x : UInt32) : (x &&& 0x1).toUInt8 = UInt8.ofNat (x.toNat % 2) := by
  apply UInt8.toNat.inj
  have h : x.toNat &&& 1 = x.toNat % 2 := Nat.and_one_is_mod x.toNat
  have h1 : (0x1 : UInt32).toNat = 1 := rfl
  rw [UInt32.toNat_toUInt8, UInt32.toNat_and, UInt8.toNat_ofNat', h1, h]

/-- The drive register, field by field. -/
theorem cmdRegs_drive (device sector : UInt32) :
    ((cmdRegs device sector).drive &&& (0x0f : UInt8)) =
      UInt8.ofNat ((sector >>> 24).toUInt8.toNat % 16) ∧
    (cmdRegs device sector).device = (device.toNat % 2 == 1) := by
  have hfields := drive_fields ⟨device.toNat % 2, Nat.mod_lt _ (by decide)⟩
    ⟨(sector >>> 24).toUInt8.toNat % 16, Nat.mod_lt _ (by decide)⟩
  dsimp only at hfields
  rw [← and_one_toUInt8, ← and_0x0f] at hfields
  rw [← and_0x0f]
  exact hfields

theorem cmdRegs_lba (device sector : UInt32) :
    (cmdRegs device sector).lba = sector.toNat % 2 ^ 28 := by
  have hmid := toNat_shiftRight sector 8 (by decide)
  have hhigh := toNat_shiftRight sector 16 (by decide)
  have htop := toNat_shiftRight sector 24 (by decide)
  refine Registers.lba_eq ?_ ?_ ?_ ?_
  · show (sector.toUInt8 &&& 0xff).toNat = _
    rw [and_0xff, UInt32.toNat_toUInt8]
  · show ((sector >>> 8).toUInt8 &&& 0xff).toNat = _
    rw [and_0xff, hmid]
    rfl
  · show ((sector >>> 16).toUInt8 &&& 0xff).toNat = _
    rw [and_0xff, hhigh]
    rfl
  · have h24 : (24 : UInt32).toNat = 24 := rfl
    rw [(cmdRegs_drive device sector).1, htop, UInt8.toNat_ofNat', h24]
    omega

theorem cmdRegs_device (device sector : UInt32) :
    (cmdRegs device sector).device = deviceOf device := by
  have h : (device &&& 1 != 0) = (device.toNat % 2 == 1) := by
    have hmod : device.toNat &&& 1 = device.toNat % 2 := Nat.and_one_is_mod device.toNat
    have h1 : (device &&& 1).toNat = device.toNat % 2 := hmod ▸ UInt32.toNat_and device 1
    rw [Bool.eq_iff_iff]
    simp only [bne_iff_ne, ne_eq, beq_iff_eq, ← UInt32.toNat_inj, h1]
    have h0 : (0 : UInt32).toNat = 0 := rfl
    omega
  rw [(cmdRegs_drive device sector).2, deviceOf, h]

/-! ## 3. Reading -/

section Rules

variable {m : Media} {r : Registers} {c : Option Transfer}

theorem wait_gives : Gives shown wait (m, r, c) (.ok ()) (m, r, c) := by
  unfold wait
  refine poll_then _ fun s => ?_
  have hok : s.val &&& (ideDf ||| ideErr) = 0 := s.masked (by decide)
  rw [if_pos hok]
  exact gives_pure ()

theorem ideCmd_gives (device sector : UInt32) :
    Gives shown (ideCmd device sector) (m, r, c) (.ok ()) (m, cmdRegs device sector, c) := by
  unfold ideCmd
  refine (outb_register _ (by decide)).then ((gives_require rfl).then ?_)
  refine (outb_register _ (by decide)).then ((outb_register _ (by decide)).then ?_)
  exact (outb_register _ (by decide)).then (outb_register _ (by decide))

/-- The sector a device and sector number name. -/
abbrev named (m : Media) (device sector : UInt32) : Sector :=
  m (deviceOf device) (sector.toNat % 2 ^ 28)

/-- A command register byte after `ide_cmd`. -/
theorem command_read (device sector : UInt32) : (cmdRegs device sector).command ideCmdRead =
    some ⟨.read, deviceOf device, sector.toNat % 2 ^ 28, 0⟩ := by
  rw [← cmdRegs_device device sector, ← cmdRegs_lba device sector]
  rfl

theorem command_write (device sector : UInt32) : (cmdRegs device sector).command ideCmdWrite =
    some ⟨.write, deviceOf device, sector.toNat % 2 ^ 28, 0⟩ := by
  rw [← cmdRegs_device device sector, ← cmdRegs_lba device sector]
  rfl

/-- The whole of the sector, as `insl` reads it after a read command. -/
theorem insl_sector (device sector : UInt32) :
    Gives shown (insl (sectorSize / 4) : Prog Drive DiskError (List UInt32))
      (m, r, some ⟨.read, deviceOf device, sector.toNat % 2 ^ 28, 0⟩)
      (.ok (words (named m device sector).val))
      (m, r, some ⟨.read, deviceOf device, sector.toNat % 2 ^ 28, 128⟩) := by
  have h : Gives shown (insl 128 : Prog Drive DiskError (List UInt32))
      (m, r, some ⟨.read, deviceOf device, sector.toNat % 2 ^ 28, 0⟩)
      (.ok (((words (named m device sector).val).drop 0).take 128))
      (m, r, some ⟨.read, deviceOf device, sector.toNat % 2 ^ 28, 0 + 128⟩) :=
    insl_gives 128 0 (by decide)
  have hlen : (words (named m device sector).val).length ≤ 128 := by
    rw [length_words, (named m device sector).property]
  rw [List.drop_zero, List.take_of_length_le hlen] at h
  exact h

/-- **`Ide::read` fills the buffer from the sector**, whatever the buffer's length, and leaves the
    read as the drive's current command. -/
theorem read_gives (device sector : UInt32) (buf : List UInt8) :
    Gives (onView shown) (read device sector) ((m, r, c), buf) (.ok ())
      ((m, cmdRegs device sector, some ⟨.read, deviceOf device, sector.toNat % 2 ^ 28, 128⟩),
        (named m device sector).val.take buf.length ++ buf.drop 512) := by
  have hx := (named m device sector).property
  have hbytes : (words (named m device sector).val).flatMap le32 = (named m device sector).val :=
    flatMap_le32_words (by rw [hx])
  unfold read
  refine wait_gives.onFst.then ((ideCmd_gives device sector).onFst.then ?_)
  refine (outb_command ideCmdRead).onFst.then ?_
  rw [command_read]
  refine wait_gives.onFst.then (ends_get fun s hs => ?_)
  have hs2 : s.2 = buf := (Prod.mk.inj hs).2
  rw [hs2]
  by_cases hlen : sectorSize ≤ buf.length
  · rw [if_pos hlen, List.take_of_length_le (by rw [hx]; exact hlen)]
    refine (insl_sector device sector).onFst.then (gives_modify_view fun s hs => ?_)
    obtain ⟨hview, rfl⟩ := Prod.mk.inj hs
    rw [hbytes, splice_zero, hx]
    exact Prod.ext hview rfl
  · have hlt : buf.length < 512 := Nat.lt_of_not_le hlen
    rw [if_neg hlen]
    refine (insl_sector device sector).onFst.then (gives_modify_view fun s hs => ?_)
    obtain ⟨hview, rfl⟩ := Prod.mk.inj hs
    rw [hbytes, splice_zero, List.length_take, hx, Nat.min_eq_left (Nat.le_of_lt hlt),
      List.drop_length, List.drop_of_length_le (Nat.le_of_lt hlt)]
    exact Prod.ext hview rfl

end Rules

theorem length_filled (x : Sector) (buf : List UInt8) :
    (x.val.take buf.length ++ buf.drop 512).length = buf.length := by
  rw [List.length_append, List.length_take, List.length_drop, x.property]
  omega

instance : Disk Drive where
  read := read
  write := write
  length_read device sector s := by
    have h := (read_gives device sector s.2 s rfl).2
    rw [(Prod.mk.inj h).2, length_filled]

/-! ## 4. Writing -/

section Writing

variable {m : Media} {r : Registers} {c : Option Transfer}

/-- **A buffer of at least a sector is stored.** -/
theorem write_full (device sector : UInt32) {buf : List UInt8} (h : 512 ≤ buf.length) :
    Gives shown (write buf device sector) (m, r, c) (.ok (min 512 buf.length))
      (m.store (deviceOf device) (sector.toNat % 2 ^ 28) ((named m device sector).overwrite buf),
        cmdRegs device sector, some ⟨.write, deviceOf device, sector.toNat % 2 ^ 28, 128⟩) := by
  have hlen : (buf.take 512).length = 512 := by rw [List.length_take]; omega
  have hwords : (words (buf.take 512)).length = 128 := by rw [length_words, hlen]
  have hx : ((named m device sector).overwrite buf).val =
      splice (named m device sector).val (4 * 0) ((words (buf.take 512)).flatMap le32) := by
    rw [flatMap_le32_words (by rw [hlen]), Nat.mul_zero,
      splice_all (by rw [hlen, (named m device sector).property])]
    exact List.take_append_of_le_length h
  have hout := outsl_gives (ε := DiskError) (r := cmdRegs device sector)
    (words (buf.take 512)) m 0 _ (by rw [hwords]) hx
  rw [hwords] at hout
  unfold write
  refine wait_gives.attempt_ok.then ((ideCmd_gives device sector).then ?_)
  refine (outb_command ideCmdWrite).then ?_
  rw [command_write, if_pos h]
  exact hout.then (wait_gives.then (gives_pure _))

/-- **A shorter buffer is not stored**: the merged sector is sent to a drive whose current command
    is the read that fetched it. -/
theorem write_short (device sector : UInt32) {buf : List UInt8} (h : buf.length < 512) :
    Gives shown (write buf device sector) (m, r, c) (.ok (min 512 buf.length))
      (m, cmdRegs device sector,
        some ⟨.read, deviceOf device, sector.toNat % 2 ^ 28, 128⟩) := by
  unfold write
  refine wait_gives.attempt_ok.then ((ideCmd_gives device sector).then ?_)
  refine (outb_command ideCmdWrite).then ?_
  rw [command_write, if_neg (Nat.not_le.mpr h)]
  refine (read_gives device sector _).withLocal_ok.then ((gives_require ?_).then ?_)
  · rw [length_splice (by rw [List.length_take]; omega), length_filled, List.length_replicate]
  · have hlost : ∀ t, some (⟨.read, deviceOf device, sector.toNat % 2 ^ 28, 128⟩ : Transfer) =
        some t → t.direction = .read := by
      intro t ht
      cases ht
      rfl
    exact (outsl_lost _ hlost).then (wait_gives.then (gives_pure _))

/-- Overwriting the first bytes of a sector with the bytes it starts with. -/
theorem overwrite_eq_self_iff (x : Sector) {buf : List UInt8} (h : buf.length ≤ 512) :
    x.overwrite buf = x ↔ buf <+: x.val := by
  constructor
  · intro e
    have hval : (buf ++ x.val.drop buf.length).take 512 = x.val := congrArg Subtype.val e
    rw [List.take_of_length_le (by simp [x.property]; omega)] at hval
    exact ⟨_, hval⟩
  · intro e
    obtain ⟨rest, hrest⟩ := e
    apply Subtype.ext
    show (buf ++ x.val.drop buf.length).take 512 = x.val
    rw [← hrest, List.drop_left, hrest, List.take_of_length_le (le_of_eq x.property)]

theorem Media.store_eq_self_iff {m : Media} {device : Bool} {lba : Nat} {x : Sector} :
    m.store device lba x = m ↔ x = m device lba := by
  constructor
  · intro h
    rw [← m.store_self device lba x, h]
  · intro h
    rw [h, Media.store_same]

end Writing

/-- **The driver meets the contract of a disk exactly for whole sectors.** `read` always returns,
    fills the first bytes of its buffer from the sector and changes nothing on the drive. `write`
    reports the right count and stores the buffer over the first bytes of its sector, and nothing
    else, if and only if the buffer has at least 512 bytes, or the sector already starts with it. -/
theorem ide_disk_contract_iff (d : Drive) (device sector : UInt32) (hs : sector.toNat < 2 ^ 28)
    (buf : List UInt8) :
    ((Disk.read device sector (d, buf)).1 = .ok () ∧
      (Disk.read device sector (d, buf)).2.2 =
        (d.media (deviceOf device) sector.toNat).val.take buf.length ++ buf.drop 512 ∧
      (Disk.read device sector (d, buf)).2.1.media = d.media) ∧
    (((Disk.write buf device sector d).1 = .ok (min 512 buf.length) ∧
      (Disk.write buf device sector d).2.media = d.media.store (deviceOf device) sector.toNat
        ((d.media (deviceOf device) sector.toNat).overwrite buf)) ↔
      512 ≤ buf.length ∨ buf <+: (d.media (deviceOf device) sector.toNat).val) := by
  have hmod : sector.toNat % 2 ^ 28 = sector.toNat := Nat.mod_eq_of_lt hs
  refine ⟨?_, ?_⟩
  · obtain ⟨ho, hv⟩ := read_gives device sector buf (d, buf) rfl
    obtain ⟨hview, hbuf⟩ := Prod.mk.inj hv
    refine ⟨ho, ?_, congrArg Prod.fst hview⟩
    rw [← hmod]
    exact hbuf
  · by_cases hlen : 512 ≤ buf.length
    · obtain ⟨ho, hv⟩ := write_full device sector hlen d rfl
      refine iff_of_true ⟨ho, ?_⟩ (Or.inl hlen)
      rw [← hmod]
      exact congrArg Prod.fst hv
    · obtain ⟨ho, hv⟩ := write_short device sector (Nat.lt_of_not_le hlen) d rfl
      have hm : (Disk.write buf device sector d).2.media = d.media := congrArg Prod.fst hv
      rw [hm, or_iff_right hlen, ← overwrite_eq_self_iff _ (by omega), eq_comm (a := d.media),
        Media.store_eq_self_iff]
      exact and_iff_right ho

/-- A drive of zeros. -/
def zeroDrive : Drive where
  media _ _ := Sector.zero
  regs := ⟨0, 0, 0, 0, 0⟩
  current := none
  status _ := .ready
  polls := 0
  bus _ := 0
  strays := 0

theorem ide_disk_contract_zeroDrive :
    ((Disk.write (List.replicate 512 7) 1 300 zeroDrive).1 =
        .ok (min 512 (List.replicate 512 (7 : UInt8)).length) ∧
      (Disk.write (List.replicate 512 7) 1 300 zeroDrive).2.media =
        zeroDrive.media.store (deviceOf 1) (300 : UInt32).toNat
          ((zeroDrive.media (deviceOf 1) (300 : UInt32).toNat).overwrite (List.replicate 512 7))) :=
  (ide_disk_contract_iff zeroDrive 1 300 (by decide) (List.replicate 512 7)).2.mpr
    (Or.inl (le_of_eq List.length_replicate.symm))

/-- A one-byte write of a zero sector returns `Ok(1)`, and the sector still starts with a zero. -/
theorem short_write_lost :
    (Disk.write [1] 0 0 zeroDrive).1 = .ok 1 ∧
    ((Disk.write [1] 0 0 zeroDrive).2.media false 0).val[0]? = some 0 := by
  obtain ⟨ho, hv⟩ := write_short 0 0 (show [(1 : UInt8)].length < 512 by decide) zeroDrive rfl
  have hm : (Disk.write [1] 0 0 zeroDrive).2.media = zeroDrive.media := congrArg Prod.fst hv
  rw [hm]
  exact ⟨ho, rfl⟩

end Sprocket.Ide
