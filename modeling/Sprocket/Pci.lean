/-
  File:      Sprocket/Pci.lean
  Subject:   PCI CONFIGURATION SPACE through its two ports (`pci/src/lib.rs`).

  A configuration register is a 32-bit word; its address is packed from bus, slot, function and
  offset (`configAddress`). The driver writes the address to one port and reads or writes the word
  at the other. A 16-bit field is half of a word: reading it reads the word and shifts, writing it
  reads the other half and rewrites the word.

  `config_write16` selects the half by `(offset & 0xfc) % 4 == 0`. The mask has already cleared the
  two bits the test is about, so the test is true for every offset (`mask_selects`), and a field in
  the upper half is written as if it were in the lower one.

  * `configAddress_eq_iff` -- the packing is injective on words;
  * `configRead16_gives`, `configWrite16_gives` -- what the accesses do to configuration space;
  * `writesField_iff` -- the writes that change one field and nothing else.
-/
import Mathlib.Logic.Function.Basic
import Sprocket.Lib.Word

namespace Sprocket.Pci

open Prog

/-! ## 1. Ports and accesses -/

abbrev configAddressPort : UInt16 := 0xcf8
abbrev configDataPort : UInt16 := 0xcfc

/-- The address register, and the configuration registers by their addresses. -/
structure Bus where
  address : UInt32
  space : UInt32 → UInt32

def outl (port : UInt16) (v : UInt32) : Prog Bus Unit Unit := modify fun b =>
  if port = configAddressPort then { b with address := v }
  else if port = configDataPort then { b with space := Function.update b.space b.address v }
  else b

/-- No other port is read. -/
def inl (port : UInt16) : Prog Bus Unit UInt32 := do
  let b ← get
  pure (if port = configDataPort then b.space b.address else b.address)

/-- The address `config_read32` and `config_write32` compute. -/
def configAddress (bus slot func offset : UInt8) : UInt32 :=
  (bus.toUInt32 <<< 16) ||| (slot.toUInt32 <<< 11) ||| (func.toUInt32 <<< 8) |||
    (offset.toUInt32 &&& 0xfc) ||| 0x80000000

def configRead32 (bus slot func offset : UInt8) : Prog Bus Unit UInt32 := do
  outl configAddressPort (configAddress bus slot func offset)
  inl configDataPort

def configRead16 (bus slot func offset : UInt8) : Prog Bus Unit UInt16 := do
  let word ← configRead32 bus slot func offset
  pure (word >>> ((offset &&& 2) * 8).toUInt32 &&& 0xffff).toUInt16

def configWrite32 (bus slot func offset : UInt8) (config : UInt32) : Prog Bus Unit Unit := do
  outl configAddressPort (configAddress bus slot func offset)
  outl configDataPort config

def configWrite16 (bus slot func offset : UInt8) (config : UInt16) : Prog Bus Unit Unit := do
  let otherOff ←
    if (offset &&& 0xfc) % 4 = 0 then checkedAddU8 offset 2 else checkedSubU8 offset 2
  let word ← configRead16 bus slot func otherOff
  let data :=
    if (offset &&& 0xfc) % 4 = 0 then word.toUInt32 <<< 16 ||| config.toUInt32
    else config.toUInt32 <<< 16 ||| word.toUInt32
  configWrite32 bus slot func offset data

/-! ## 2. Addresses -/

theorem toNat_mask (offset : UInt8) : (offset &&& 0xfc).toNat = offset.toNat / 4 * 4 := by
  have hlt := offset.toNat_lt
  have hdiv : (offset.toNat &&& 252) / 2 ^ 2 = offset.toNat / 2 ^ 2 := by
    have hsmall : offset.toNat / 2 ^ 2 < 2 ^ 6 := by omega
    rw [Nat.and_div_two_pow]
    exact Nat.and_two_pow_sub_one_of_lt_two_pow hsmall
  have hmod : (offset.toNat &&& 252) % 2 ^ 2 = 0 := by
    rw [Nat.and_mod_two_pow]
    exact Nat.and_zero _
  rw [UInt8.toNat_and]
  show offset.toNat &&& 252 = _
  omega

/-- **The test of `config_write16` is true for every offset.** -/
theorem mask_selects (offset : UInt8) : (offset &&& 0xfc) % 4 = 0 := by
  apply UInt8.toNat.inj
  rw [UInt8.toNat_mod, toNat_mask]
  exact Nat.mul_mod_left _ _

/-- Bits below the shifted ones are added. -/
theorem shiftLeft_or {a b i : Nat} (h : b < 2 ^ i) : a <<< i ||| b = a * 2 ^ i + b := by
  rw [← Nat.shiftLeft_add_eq_or_of_lt h, Nat.shiftLeft_eq]

theorem toNat_shifted (x : UInt8) {i : UInt32} (h : i.toNat ≤ 16) :
    (x.toUInt32 <<< i).toNat = x.toNat <<< i.toNat := by
  have hlt := x.toNat_lt
  have hpow : 2 ^ i.toNat ≤ 2 ^ 16 := Nat.pow_le_pow_right (by decide) h
  have hmod : i.toNat % 32 = i.toNat := Nat.mod_eq_of_lt (by omega)
  rw [UInt32.toNat_shiftLeft, UInt8.toNat_toUInt32, hmod, Nat.shiftLeft_eq]
  refine Nat.mod_eq_of_lt ?_
  calc x.toNat * 2 ^ i.toNat ≤ 255 * 2 ^ 16 := Nat.mul_le_mul (by omega) hpow
    _ < 2 ^ 32 := by decide

/-- **The address as a number**: no two parts share a bit. -/
theorem toNat_configAddress {bus slot func : UInt8} (hs : slot < 32) (hf : func < 8)
    (offset : UInt8) : (configAddress bus slot func offset).toNat =
      2 ^ 31 + (bus.toNat * 2 ^ 16 + (slot.toNat * 2 ^ 11 + (func.toNat * 2 ^ 8 +
        offset.toNat / 4 * 4))) := by
  have hs' : slot.toNat < 32 := hs
  have hf' : func.toNat < 8 := hf
  have hb := bus.toNat_lt
  have ho := offset.toNat_lt
  have hmask : (offset.toUInt32 &&& 0xfc).toNat = offset.toNat / 4 * 4 := by
    rw [UInt32.toNat_and, UInt8.toNat_toUInt32, ← toNat_mask, UInt8.toNat_and]
    rfl
  have h16 : (bus.toUInt32 <<< 16).toNat = bus.toNat <<< 16 := toNat_shifted bus (by decide)
  have h11 : (slot.toUInt32 <<< 11).toNat = slot.toNat <<< 11 := toNat_shifted slot (by decide)
  have h8 : (func.toUInt32 <<< 8).toNat = func.toNat <<< 8 := toNat_shifted func (by decide)
  have htop : (0x80000000 : UInt32).toNat = 1 <<< 31 := rfl
  simp only [configAddress, UInt32.toNat_or, h16, h11, h8, hmask, htop]
  -- from the low end up, each part lies below the next shift
  have e8 : func.toNat <<< 8 ||| offset.toNat / 4 * 4 = func.toNat * 2 ^ 8 + offset.toNat / 4 * 4 :=
    shiftLeft_or (by omega)
  rw [Nat.or_comm, Nat.or_assoc, Nat.or_assoc, e8]
  have e11 : slot.toNat <<< 11 ||| (func.toNat * 2 ^ 8 + offset.toNat / 4 * 4) =
      slot.toNat * 2 ^ 11 + (func.toNat * 2 ^ 8 + offset.toNat / 4 * 4) := shiftLeft_or (by omega)
  have e16 : bus.toNat <<< 16 ||| (slot.toNat * 2 ^ 11 + (func.toNat * 2 ^ 8 +
      offset.toNat / 4 * 4)) = bus.toNat * 2 ^ 16 + (slot.toNat * 2 ^ 11 + (func.toNat * 2 ^ 8 +
      offset.toNat / 4 * 4)) := shiftLeft_or (by omega)
  rw [e11, e16, shiftLeft_or (by omega), Nat.one_mul]

/-- **The packing is injective on words.** -/
theorem configAddress_eq_iff {bus slot func bus' slot' func' : UInt8} (hs : slot < 32)
    (hf : func < 8) (hs' : slot' < 32) (hf' : func' < 8) (offset offset' : UInt8) :
    configAddress bus' slot' func' offset' = configAddress bus slot func offset ↔
      (bus', slot', func') = (bus, slot, func) ∧ offset'.toNat / 4 = offset.toNat / 4 := by
  have h1 : slot.toNat < 32 := hs
  have h2 : func.toNat < 8 := hf
  have h3 : slot'.toNat < 32 := hs'
  have h4 : func'.toNat < 8 := hf'
  have ho := offset.toNat_lt
  have ho' := offset'.toNat_lt
  rw [← UInt32.toNat_inj, toNat_configAddress hs hf, toNat_configAddress hs' hf', Prod.mk.injEq,
    Prod.mk.injEq, ← UInt8.toNat_inj, ← UInt8.toNat_inj, ← UInt8.toNat_inj]
  omega

/-! ## 3. Halves of a word -/

def lowHalf (v : UInt32) : UInt16 := v.toUInt16

def highHalf (v : UInt32) : UInt16 := (v >>> 16).toUInt16

/-- The half of a word an offset is in. -/
def half (v : UInt32) (offset : UInt8) : UInt16 :=
  if offset.toNat / 2 % 2 = 0 then lowHalf v else highHalf v

/-- The word `config_write16` writes. -/
def joined (high low : UInt16) : UInt32 := high.toUInt32 <<< 16 ||| low.toUInt32

theorem toNat_joined (high low : UInt16) :
    (joined high low).toNat = high.toNat * 2 ^ 16 + low.toNat := by
  have hh := high.toNat_lt
  have hshift : (high.toUInt32 <<< 16).toNat = high.toNat <<< 16 := by
    rw [UInt32.toNat_shiftLeft, UInt16.toNat_toUInt32]
    refine Nat.mod_eq_of_lt ?_
    show high.toNat <<< 16 < 2 ^ 32
    rw [Nat.shiftLeft_eq]
    omega
  rw [joined, UInt32.toNat_or, hshift, UInt16.toNat_toUInt32, shiftLeft_or low.toNat_lt]

@[simp] theorem lowHalf_joined (high low : UInt16) : lowHalf (joined high low) = low := by
  have hl := low.toNat_lt
  apply UInt16.toNat.inj
  rw [lowHalf, UInt32.toNat_toUInt16, toNat_joined]
  omega

@[simp] theorem highHalf_joined (high low : UInt16) : highHalf (joined high low) = high := by
  have hh := high.toNat_lt
  have hl := low.toNat_lt
  apply UInt16.toNat.inj
  rw [highHalf, UInt32.toNat_toUInt16, UInt32.toNat_shiftRight, toNat_joined,
    Nat.shiftRight_eq_div_pow]
  show (high.toNat * 2 ^ 16 + low.toNat) / 2 ^ 16 % 2 ^ 16 = high.toNat
  omega

theorem toNat_bit (offset : UInt8) : (offset &&& 2).toNat = offset.toNat / 2 % 2 * 2 := by
  have hdiv : (offset.toNat &&& 2) / 2 ^ 1 = offset.toNat / 2 % 2 := by
    rw [Nat.and_div_two_pow]
    exact Nat.and_one_is_mod _
  have hmod : (offset.toNat &&& 2) % 2 ^ 1 = 0 := by
    rw [Nat.and_mod_two_pow]
    exact Nat.and_zero _
  rw [UInt8.toNat_and]
  show offset.toNat &&& 2 = _
  omega

theorem toUInt16_and (v : UInt32) : (v &&& 0xffff).toUInt16 = v.toUInt16 := by
  apply UInt16.toNat.inj
  rw [UInt32.toNat_toUInt16, UInt32.toNat_toUInt16, UInt32.toNat_and]
  show (v.toNat &&& (2 ^ 16 - 1)) % 2 ^ 16 = v.toNat % 2 ^ 16
  rw [Nat.and_two_pow_sub_one_eq_mod, Nat.mod_mod]

/-- The shift of `config_read16` selects the half. -/
theorem shifted_eq_half (v : UInt32) (offset : UInt8) :
    (v >>> ((offset &&& 2) * 8).toUInt32 &&& 0xffff).toUInt16 = half v offset := by
  have hbit := toNat_bit offset
  rw [toUInt16_and, half]
  rcases Nat.mod_two_eq_zero_or_one (offset.toNat / 2) with h | h
  · have hzero : offset &&& 2 = 0 := by
      apply UInt8.toNat.inj
      rw [hbit, h]
      rfl
    rw [if_pos h, hzero]
    rfl
  · have htwo : offset &&& 2 = 2 := by
      apply UInt8.toNat.inj
      rw [hbit, h]
      rfl
    rw [if_neg (by omega), htwo]
    rfl

/-! ## 4. What the accesses do -/

section Accesses

variable {sp : UInt32 → UInt32}

theorem configRead32_gives (bus slot func offset : UInt8) :
    Gives Bus.space (configRead32 bus slot func offset) sp
      (.ok (sp (configAddress bus slot func offset))) sp := by
  rintro b rfl
  exact ⟨rfl, rfl⟩

theorem configWrite32_gives (bus slot func offset : UInt8) (config : UInt32) :
    Gives Bus.space (configWrite32 bus slot func offset config) sp (.ok ())
      (Function.update sp (configAddress bus slot func offset) config) := by
  rintro b rfl
  exact ⟨rfl, rfl⟩

/-- A 16-bit field of configuration space. -/
def field (sp : UInt32 → UInt32) (bus slot func offset : UInt8) : UInt16 :=
  half (sp (configAddress bus slot func offset)) offset

theorem configRead16_gives (bus slot func offset : UInt8) :
    Gives Bus.space (configRead16 bus slot func offset) sp
      (.ok (field sp bus slot func offset)) sp := by
  unfold configRead16
  refine (configRead32_gives bus slot func offset).then ?_
  rw [shifted_eq_half]
  exact gives_pure _

/-- **Every field is written as the lower half**, and the field two bytes on is copied into the
    upper one. -/
theorem configWrite16_gives (bus slot func : UInt8) {offset : UInt8} (h : offset.toNat < 254)
    (config : UInt16) :
    Gives Bus.space (configWrite16 bus slot func offset config) sp (.ok ())
      (Function.update sp (configAddress bus slot func offset)
        (joined (field sp bus slot func (offset + 2)) config)) := by
  have hadd : offset.toNat + (2 : UInt8).toNat < 2 ^ 8 := Nat.add_lt_add_right h 2
  unfold configWrite16
  rw [if_pos (mask_selects offset)]
  refine (gives_checkedAddU8 hadd).then ((configRead16_gives bus slot func (offset + 2)).then ?_)
  rw [if_pos (mask_selects offset)]
  exact configWrite32_gives bus slot func offset _

/-- There is no field two bytes behind the last one. -/
theorem configWrite16_overflows (bus slot func : UInt8) {offset : UInt8} (h : 254 ≤ offset.toNat)
    (config : UInt16) :
    Gives Bus.space (configWrite16 bus slot func offset config) sp .panic sp := by
  have hover : 2 ^ 8 ≤ offset.toNat + (2 : UInt8).toNat := Nat.add_le_add_right h 2
  unfold configWrite16
  rw [if_pos (mask_selects offset)]
  exact (gives_checkedAddU8_over hover).then_panic

end Accesses

/-! ## 5. Writing one field -/

/-- **The write changes one field**: it does not panic, the field is the value afterwards, and
    every other field of the function and all fields of other functions are what they were. -/
def WritesField (b : Bus) (bus slot func offset : UInt8) (value : UInt16) : Prop :=
  ∃ b', configWrite16 bus slot func offset value b = (.ok (), b') ∧
    (configRead16 bus slot func offset b').1 = .ok value ∧
    ∀ bus' slot' func' offset' : UInt8, slot' < 32 → func' < 8 →
      ((bus', slot', func') = (bus, slot, func) → offset' % 2 = 0 ∧ offset' ≠ offset) →
      (configRead16 bus' slot' func' offset' b').1 = (configRead16 bus' slot' func' offset' b).1

theorem configRead16_eq (bus slot func offset : UInt8) (b : Bus) :
    (configRead16 bus slot func offset b).1 = .ok (field b.space bus slot func offset) :=
  (configRead16_gives bus slot func offset b rfl).1

section Fields

variable {bus slot func : UInt8}

/-- The fields of the word that was written. -/
theorem field_update_word (sp : UInt32 → UInt32) (hs : slot < 32) (hf : func < 8)
    {offset offset' : UInt8} (h : offset'.toNat / 4 = offset.toNat / 4) (v : UInt32) :
    field (Function.update sp (configAddress bus slot func offset) v) bus slot func offset' =
      half v offset' := by
  have heq : configAddress bus slot func offset' = configAddress bus slot func offset :=
    (configAddress_eq_iff hs hf hs hf offset offset').mpr ⟨rfl, h⟩
  rw [field, heq, Function.update_self]

/-- The fields of other words. -/
theorem field_update_other (sp : UInt32 → UInt32) (hs : slot < 32) (hf : func < 8)
    {bus' slot' func' : UInt8} (hs' : slot' < 32) (hf' : func' < 8) {offset offset' : UInt8}
    (h : ¬ ((bus', slot', func') = (bus, slot, func) ∧ offset'.toNat / 4 = offset.toNat / 4))
    (v : UInt32) :
    field (Function.update sp (configAddress bus slot func offset) v) bus' slot' func' offset' =
      field sp bus' slot' func' offset' := by
  have hne := mt (configAddress_eq_iff hs hf hs' hf' offset offset').mp h
  rw [field, Function.update_of_ne hne, field]

/-- **The word decides.** A write changes one field exactly if the word it writes has the value in
    the half the offset is in, and in the other half what was there. -/
theorem writesField_iff_word (b : Bus) (hs : slot < 32) (hf : func < 8) {offset : UInt8}
    (hlt : offset.toNat < 254) (value : UInt16) :
    WritesField b bus slot func offset value ↔
      half (joined (field b.space bus slot func (offset + 2)) value) offset = value ∧
      ∀ offset' : UInt8, offset' % 2 = 0 → offset' ≠ offset →
        offset'.toNat / 4 = offset.toNat / 4 →
        half (joined (field b.space bus slot func (offset + 2)) value) offset' =
          field b.space bus slot func offset' := by
  obtain ⟨hok, hspace⟩ := configWrite16_gives bus slot func hlt value b rfl
  constructor
  · rintro ⟨b', hrun, hread, hrest⟩
    rw [hrun] at hspace
    rw [configRead16_eq, hspace, field_update_word _ hs hf rfl] at hread
    refine ⟨Outcome.ok.inj hread, ?_⟩
    intro offset' heven' hne hword
    have hsame := hrest bus slot func offset' hs hf (fun _ => ⟨heven', hne⟩)
    rw [configRead16_eq, configRead16_eq, hspace, field_update_word _ hs hf hword] at hsame
    exact Outcome.ok.inj hsame
  · rintro ⟨hvalue, hother⟩
    refine ⟨_, Prod.ext hok rfl, ?_, ?_⟩
    · rw [configRead16_eq, hspace, field_update_word _ hs hf rfl, hvalue]
    · intro bus' slot' func' offset' hs' hf' hfield
      rw [configRead16_eq, configRead16_eq, hspace]
      by_cases h : (bus', slot', func') = (bus, slot, func) ∧ offset'.toNat / 4 = offset.toNat / 4
      · obtain ⟨heven', hne⟩ := hfield h.1
        have hfunc := h.1
        simp only [Prod.mk.injEq] at hfunc
        obtain ⟨rfl, rfl, rfl⟩ := hfunc
        rw [field_update_word _ hs hf h.2, hother offset' heven' hne h.2]
      · rw [field_update_other _ hs hf hs' hf' h]

/-- **A field in the lower half is written.** The upper half is read and written back. -/
theorem writesField_low (b : Bus) (hs : slot < 32) (hf : func < 8) {offset : UInt8}
    (hlow : offset.toNat % 4 = 0) (value : UInt16) : WritesField b bus slot func offset value := by
  have hlt := offset.toNat_lt
  refine (writesField_iff_word b hs hf (by omega) value).mpr ⟨?_, ?_⟩
  · rw [half, if_pos (by omega), lowHalf_joined]
  · intro offset' heven hne hword
    have heven' : offset'.toNat % 2 = 0 := congrArg UInt8.toNat heven
    have hne' := mt UInt8.toNat.inj hne
    have heq : offset' = offset + 2 := by
      apply UInt8.toNat.inj
      rw [UInt8.toNat_add]
      show offset'.toNat = (offset.toNat + 2) % 2 ^ 8
      omega
    rw [half, if_neg (by omega), highHalf_joined, heq]

/-- **A field in the upper half** gets the value of the one two bytes on, and its own value goes
    to the lower half. -/
theorem writesField_high_iff (b : Bus) (hs : slot < 32) (hf : func < 8) {offset : UInt8}
    (hhigh : offset.toNat % 4 = 2) (hlt : offset.toNat < 254) (value : UInt16) :
    WritesField b bus slot func offset value ↔
      field b.space bus slot func (offset + 2) = value ∧
      field b.space bus slot func (offset - 2) = value := by
  have hnat : (offset - 2).toNat = offset.toNat - 2 :=
    UInt8.toNat_sub_of_le _ _ (show 2 ≤ offset.toNat by omega)
  have hupper : half (joined (field b.space bus slot func (offset + 2)) value) offset =
      field b.space bus slot func (offset + 2) := by
    rw [half, if_neg (by omega), highHalf_joined]
  have hlower : half (joined (field b.space bus slot func (offset + 2)) value) (offset - 2) =
      value := by
    rw [half, if_pos (by omega), lowHalf_joined]
  rw [writesField_iff_word b hs hf hlt, hupper]
  refine and_congr_right fun _ => ⟨?_, ?_⟩
  · intro hother
    have heven : (offset - 2) % 2 = 0 := by
      apply UInt8.toNat.inj
      rw [UInt8.toNat_mod, hnat]
      show (offset.toNat - 2) % 2 = 0
      omega
    have hne : offset - 2 ≠ offset := by
      intro h
      have := congrArg UInt8.toNat h
      omega
    rw [← hother (offset - 2) heven hne (by omega), hlower]
  · intro hvalue offset' heven hne hword
    have heven' : offset'.toNat % 2 = 0 := congrArg UInt8.toNat heven
    have hne' := mt UInt8.toNat.inj hne
    have heq : offset' = offset - 2 := by
      apply UInt8.toNat.inj
      omega
    rw [heq, hlower, hvalue]

theorem not_writesField_last (b : Bus) (bus slot func : UInt8) {offset : UInt8}
    (h : 254 ≤ offset.toNat) (value : UInt16) : ¬ WritesField b bus slot func offset value := by
  rintro ⟨b', hrun, _⟩
  obtain ⟨hpanic, _⟩ := configWrite16_overflows bus slot func h value b rfl
  rw [hrun] at hpanic
  cases hpanic

end Fields

/-- **16-bit writes.** A write to an even offset changes one field exactly if the field is the
    lower half of its word, or the value is already there and in the lower half of the next word.
    At the last offset the write panics. -/
theorem writesField_iff (b : Bus) {bus slot func offset : UInt8} (hs : slot < 32) (hf : func < 8)
    (heven : offset % 2 = 0) (value : UInt16) :
    WritesField b bus slot func offset value ↔
      offset % 4 = 0 ∨ (offset < 254 ∧
        (configRead16 bus slot func (offset + 2) b).1 = .ok value ∧
        (configRead16 bus slot func (offset - 2) b).1 = .ok value) := by
  have hmod2 : offset.toNat % 2 = 0 := congrArg UInt8.toNat heven
  have hmod4 : offset % 4 = 0 ↔ offset.toNat % 4 = 0 := by
    rw [← UInt8.toNat_inj, UInt8.toNat_mod]
    rfl
  have hlast : offset < 254 ↔ offset.toNat < 254 := Iff.rfl
  rw [hmod4, hlast, configRead16_eq, configRead16_eq, Outcome.ok.injEq, Outcome.ok.injEq]
  by_cases hlow : offset.toNat % 4 = 0
  · exact iff_of_true (writesField_low b hs hf hlow value) (Or.inl hlow)
  · by_cases hin : offset.toNat < 254
    · rw [writesField_high_iff b hs hf (by omega) hin]
      simp [hlow, hin]
    · refine iff_of_false (not_writesField_last b bus slot func (Nat.le_of_not_lt hin) value) ?_
      simp [hlow, hin]

/-- All registers zero. -/
def Bus.blank : Bus := ⟨0, fun _ => 0⟩

/-- Bus mastering is enabled in the command register, which is in the lower half of its word. -/
theorem writesField_command : WritesField Bus.blank 0 3 0 4 4 :=
  (writesField_iff Bus.blank (by decide) (by decide) (by decide) 4).mpr (Or.inl (by decide))

/-- The status register behind it keeps its value, and the command register gets what was written
    to it. The last field cannot be written. -/
theorem write_status_blank :
    (configRead16 0 3 0 6 (configWrite16 0 3 0 6 0x1234 Bus.blank).2).1 = .ok 0 ∧
    (configRead16 0 3 0 4 (configWrite16 0 3 0 6 0x1234 Bus.blank).2).1 = .ok 0x1234 ∧
    (configWrite16 0 3 0 254 0x1234 Bus.blank).1 = .panic := by
  decide

/-! ## 6. Devices -/

abbrev vendIdOffset : UInt8 := 0
abbrev devIdOffset : UInt8 := 2
abbrev cmdRegOffset : UInt8 := 4
abbrev barTypeIo : UInt8 := 0x1

/-- `BUS_MASTER`, a flag of `Command`. -/
abbrev busMaster : UInt16 := (1 : UInt16) <<< 2

/-- `Command::all`: every bit has a name. -/
abbrev commandAll : UInt16 := 0xffff

structure PciDevice where
  bus : UInt8
  slot : UInt8
  func : UInt8
  deriving DecidableEq, Repr

/-- The buses and slots in the order of the two loops of `find`. -/
def places : List (UInt8 × UInt8) := (List.range 256).flatMap fun bus =>
  (List.range 32).map fun slot => (UInt8.ofNat bus, UInt8.ofNat slot)

/-- The loops of `find`. -/
def findAt (vendor device : UInt16) : List (UInt8 × UInt8) → Prog Bus Unit (Option PciDevice)
  | [] => pure none
  | p :: rest => do
    let vendId ← configRead16 p.1 p.2 0 vendIdOffset
    let devId ← configRead16 p.1 p.2 0 devIdOffset
    if vendor = vendId ∧ devId = device then pure (some ⟨p.1, p.2, 0⟩)
    else findAt vendor device rest

def find (vendor device : UInt16) : Prog Bus Unit (Option PciDevice) :=
  findAt vendor device places

/-- The loops of `enumerate`, which only logs what it reads. -/
def enumerateAt : List (UInt8 × UInt8) → Prog Bus Unit Unit
  | [] => pure ()
  | p :: rest => do
    let vendor ← configRead16 p.1 p.2 0 vendIdOffset
    if vendor = 0x10ec then
      let _ ← configRead16 p.1 p.2 0 devIdOffset
      enumerateAt rest
    else enumerateAt rest

def enumerate : Prog Bus Unit Unit := enumerateAt places

def setCommandFlags (d : PciDevice) (flag : UInt16) : Prog Bus Unit Unit := do
  let bits ← configRead16 d.bus d.slot d.func cmdRegOffset
  -- "Invalid PCI bits!"
  require (bits &&& ~~~ commandAll = 0)
  configWrite16 d.bus d.slot d.func cmdRegOffset (bits ||| flag)

/-- `read_bar` of `Bar0`. -/
def readBar0 (d : PciDevice) : Prog Bus Unit UInt32 := configRead32 d.bus d.slot d.func 0x10

/-- The line and the pin of the interrupt. -/
def readIrq (d : PciDevice) : Prog Bus Unit (UInt8 × UInt8) := do
  let word ← configRead16 d.bus d.slot d.func 0x3c
  pure ((word &&& 0xff).toUInt8, (word >>> 8).toUInt8)

section Devices

variable {sp : UInt32 → UInt32}

/-- The device is at this place, as its first function. -/
def isAt (sp : UInt32 → UInt32) (vendor device : UInt16) (p : UInt8 × UInt8) : Bool :=
  vendor = field sp p.1 p.2 0 vendIdOffset ∧ field sp p.1 p.2 0 devIdOffset = device

/-- The first place with the device. -/
def firstDevice (sp : UInt32 → UInt32) (vendor device : UInt16) : Option PciDevice :=
  (places.find? (isAt sp vendor device)).map fun p => ⟨p.1, p.2, 0⟩

theorem findAt_gives (vendor device : UInt16) : ∀ ps : List (UInt8 × UInt8),
    Gives Bus.space (findAt vendor device ps) sp
      (.ok ((ps.find? (isAt sp vendor device)).map fun p => ⟨p.1, p.2, 0⟩)) sp
  | [] => gives_pure _
  | p :: rest => by
    unfold findAt
    refine (configRead16_gives _ _ _ _).then ((configRead16_gives _ _ _ _).then ?_)
    by_cases h : vendor = field sp p.1 p.2 0 vendIdOffset ∧ field sp p.1 p.2 0 devIdOffset = device
    · have hat : isAt sp vendor device p = true := decide_eq_true h
      rw [if_pos h, List.find?_cons_of_pos hat]
      exact gives_pure _
    · have hnot : ¬ isAt sp vendor device p = true := fun hat => h (of_decide_eq_true hat)
      rw [if_neg h, List.find?_cons_of_neg hnot]
      exact findAt_gives vendor device rest

theorem find_gives (vendor device : UInt16) :
    Gives Bus.space (find vendor device) sp (.ok (firstDevice sp vendor device)) sp :=
  findAt_gives vendor device places

theorem enumerateAt_gives : ∀ ps : List (UInt8 × UInt8),
    Gives Bus.space (enumerateAt ps) sp (.ok ()) sp
  | [] => gives_pure _
  | p :: rest => by
    unfold enumerateAt
    refine (configRead16_gives _ _ _ _).then ?_
    by_cases h : field sp p.1 p.2 0 vendIdOffset = 0x10ec
    · rw [if_pos h]
      exact (configRead16_gives _ _ _ _).then (enumerateAt_gives rest)
    · rw [if_neg h]
      exact enumerateAt_gives rest

theorem enumerate_gives : Gives Bus.space enumerate sp (.ok ()) sp := enumerateAt_gives places

theorem firstDevice_bounds {vendor device : UInt16} {d : PciDevice}
    (h : firstDevice sp vendor device = some d) : d.slot < 32 ∧ d.func = 0 := by
  obtain ⟨p, hp, rfl⟩ := Option.map_eq_some_iff.mp h
  obtain ⟨bus, -, hplace⟩ := List.mem_flatMap.mp (List.mem_of_find?_eq_some hp)
  obtain ⟨slot, hslot, rfl⟩ := List.mem_map.mp hplace
  have hlt : slot < 32 := List.mem_range.mp hslot
  refine ⟨UInt8.lt_iff_toNat_lt.mpr ?_, rfl⟩
  show slot % 2 ^ 8 < 32
  omega

/-- **The flag is set, and the register keeps its other bits.** -/
theorem setCommandFlags_gives (d : PciDevice) (flag : UInt16) :
    Gives Bus.space (setCommandFlags d flag) sp (.ok ())
      (Function.update sp (configAddress d.bus d.slot d.func cmdRegOffset)
        (joined (field sp d.bus d.slot d.func 6)
          (field sp d.bus d.slot d.func cmdRegOffset ||| flag))) := by
  have hnamed : field sp d.bus d.slot d.func cmdRegOffset &&& ~~~ commandAll = 0 := UInt16.and_zero
  unfold setCommandFlags
  refine (configRead16_gives _ _ _ _).then ((gives_require hnamed).then ?_)
  exact configWrite16_gives _ _ _ (by decide) _

end Devices

end Sprocket.Pci
