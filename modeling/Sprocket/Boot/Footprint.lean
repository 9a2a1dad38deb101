/-
  File:      Sprocket/Boot/Footprint.lean
  Subject:   WHICH BYTES OF MEMORY `readseg` WRITES.

  `readseg` says it might copy more than asked: it reads whole sectors, from the sector boundary
  below its offset on. But each sector is taken from the data port into a slice of 1024 words,
  which is eight times what the loop then moves on by. The 3584 bytes behind the sector are
  overwritten by the next sector, except behind the last one, where they stay.

  * `CoverEnd`, `Outside` -- the whole sectors that cover a request, and what lies outside them;
  * `spill` -- what is found there when `readseg` is done, byte by byte (`readseg_spills`);
  * `readseg_footprint` -- 3584 bytes above the sectors nothing changes any more;
  * `readseg_spoils` -- up to there everything may change, for every request that reads a sector;
  * `readseg_keeps_outside_iff` -- nothing changes outside the sectors exactly when none is read or
    memory already holds what the bus is going to show.
-/
import Mathlib.Data.List.GetD
import Mathlib.Order.Bounds.Basic
import Sprocket.Boot.Segments

namespace Sprocket.Boot

open Bytes Prog Ata Mem

/-! ## 1. The sectors that cover a request -/

/-- `e` is the end of the sectors that cover the request: the least address a whole number of
    sectors above `pa - offset % 512` that is not below `pa + count`. -/
def CoverEnd (pa count offset : UInt32) (e : Nat) : Prop :=
  IsLeast {a | ∃ k, a = pa.toNat - offset.toNat % 512 + 512 * k ∧ pa.toNat + count.toNat ≤ a} e

/-- The address lies outside of the sectors that end at `e`. -/
def Outside (pa offset : UInt32) (e : Nat) (x : UInt32) : Prop :=
  x.toNat < pa.toNat - offset.toNat % 512 ∨ e ≤ x.toNat

section Cover

variable {pa count offset : UInt32} {e : Nat}

theorem coverEnd_iff (hlow : offset.toNat % 512 ≤ pa.toNat) :
    CoverEnd pa count offset e ↔
      e = pa.toNat - offset.toNat % 512 + 512 * sectorsFor count offset := by
  have hn : sectorsFor count offset = (count.toNat + offset.toNat % 512 + 511) / 512 := rfl
  have hleast : CoverEnd pa count offset
      (pa.toNat - offset.toNat % 512 + 512 * sectorsFor count offset) := by
    refine ⟨⟨_, rfl, by omega⟩, ?_⟩
    rintro a ⟨k, rfl, hk⟩
    omega
  constructor
  · intro he
    exact he.unique hleast
  · rintro rfl
    exact hleast

theorem sectorsFor_eq_zero :
    sectorsFor count offset = 0 ↔ count.toNat = 0 ∧ offset.toNat % 512 = 0 := by
  unfold sectorsFor
  omega

/-- An address outside lies at least the length of the sectors above their start. -/
theorem outside_iff (hlow : offset.toNat % 512 ≤ pa.toNat) (he : CoverEnd pa count offset e)
    (hfit : e < 2 ^ 32) (x : UInt32) :
    Outside pa offset e x ↔ 512 * sectorsFor count offset ≤ dist (segStart pa offset) x := by
  have heq := (coverEnd_iff hlow).mp he
  have hx := x.toNat_lt
  -- below the start the distance goes around the end of memory, which the sectors do not reach
  rw [Outside, dist_eq, toNat_segStart hlow]
  split <;> omega

/-- How far an address outside lies above the end of the sectors. -/
theorem dist_coverEnd (hlow : offset.toNat % 512 ≤ pa.toNat) (he : CoverEnd pa count offset e)
    (hfit : e < 2 ^ 32) {x : UInt32} (hx : Outside pa offset e x) :
    dist (UInt32.ofNat e) x =
      dist (segStart pa offset) x - 512 * sectorsFor count offset := by
  have heq := (coverEnd_iff hlow).mp he
  have hend : UInt32.ofNat e =
      segStart pa offset + UInt32.ofNat (512 * sectorsFor count offset) := by
    rw [heq, ← toNat_segStart hlow, UInt32.ofNat_add, UInt32.ofNat_toNat]
  rw [hend, dist_add (by omega), if_pos ((outside_iff hlow he hfit x).mp hx)]

end Cover

/-! ## 2. What is left outside -/

/-- Byte `k` of the stray words from the `i`th on. -/
def strayByte (bus : Nat → UInt32) (i k : Nat) : UInt8 := (le32 (bus (i + k / 4))).getD (k % 4) 0

theorem getElem?_strayBytes (bus : Nat → UInt32) (i : Nat) {k : Nat} (hk : k < 3584) :
    ((strayWords bus i 896).flatMap le32)[k]? = some (strayByte bus i k) := by
  have hlen := length_strayWords bus i 896
  have hword : k / 4 < 896 := by omega
  have hget : (strayWords bus i 896).getD (k / 4) 0 = bus (i + k / 4) := by
    simp [strayWords, List.getD_eq_getElem?_getD, hword]
  rw [getElem?_flatMap_le32 _ _ (by omega), hget, strayByte]

/-- A bus that shows zeros. -/
theorem strayByte_zero (i k : Nat) : strayByte (fun _ => 0) i k = 0 := by
  have hzero : le32 0 = List.replicate 4 0 := rfl
  rw [strayByte, hzero, List.getD_replicate 0 (Nat.mod_lt k (by decide))]

/-- What is found `d` bytes above the end of `n` sectors, when the stray words `i` and up follow on
    the bus: the words behind the last sector, and above them what was there before. -/
def spill (bus : Nat → UInt32) (i d : Nat) (old : UInt8) : Nat → UInt8
  | 0 => old
  | n + 1 => if d < 3584 then strayByte bus (i + 896 * n) d else old

theorem spill_succ (bus : Nat → UInt32) (i d : Nat) (old : UInt8) (n : Nat) :
    spill bus i d old (n + 1) = if d < 3584 then strayByte bus (i + 896 * n) d else old :=
  rfl

theorem spill_far (bus : Nat → UInt32) (i : Nat) {d : Nat} (old : UInt8) (n : Nat)
    (h : 3584 ≤ d) : spill bus i d old n = old := by
  cases n with
  | zero => rfl
  | succ n => exact if_neg (Nat.not_lt.mpr h)

/-- A byte of memory at or above the end of a sector. -/
theorem write_sectBytes_past {m : Media} {bus : Nat → UInt32} {i : Nat} {mem : Mem}
    {dst x : UInt32} (sector : Nat) (h : 512 ≤ dist dst x) :
    mem.write dst (sectBytes m bus sector i) x =
      if dist dst x - 512 < 3584 then strayByte bus i (dist dst x - 512) else mem x := by
  rw [write_sectBytes, if_neg (Nat.not_lt.mpr h)]
  by_cases hd : dist dst x - 512 < 3584
  · rw [if_pos hd, getElem?_strayBytes bus i hd, Option.getD_some]
  · rw [if_neg hd, List.getElem?_eq_none (by rw [length_strayBytes]; omega), Option.getD_none]

/-- The loop of `readseg` after `k` sectors, as it looks from above them. -/
structure Spilling (m : Media) (bus : Nat → UInt32) (i : Nat) (mem : Mem)
    (pa count offset : UInt32) (rounds left k : Nat) (s : UInt32 × UInt32)
    (w : ((Media × (Nat → UInt32)) × Nat) × Mem) : Prop
    extends Place pa count offset rounds left k s where
  drive : w.1 = ((m, bus), i + 896 * k)
  outside : ∀ x, 512 * k ≤ dist (segStart pa offset) x →
    w.2 x = spill bus i (dist (segStart pa offset) x - 512 * k) (mem x) k

section Spilling

variable {m : Media} {bus : Nat → UInt32} {i : Nat} {mem : Mem} {pa count offset : UInt32}
  {rounds left k : Nat} {s : UInt32 × UInt32} {w : ((Media × (Nat → UInt32)) × Nat) × Mem}

/-- Before the first sector. -/
theorem Spilling.start (rounds : Nat) :
    Spilling m bus i mem pa count offset rounds rounds 0
      (segStart pa offset, offset / sectsize + 1) (((m, bus), i), mem) :=
  ⟨Place.start rounds, rfl, fun _ _ => rfl⟩

/-- What one more sector leaves above itself: its own stray bytes, and beyond them memory as it
    was. -/
theorem Spilling.spill_next (h : Spilling m bus i mem pa count offset rounds left k s w)
    (hk : 512 * k < 2 ^ 32) {x : UInt32} (hx : 512 * (k + 1) ≤ dist (segStart pa offset) x)
    (sector : Nat) :
    w.2.write s.1 (sectBytes m bus sector (i + 896 * k)) x =
      spill bus i (dist (segStart pa offset) x - 512 * (k + 1)) (mem x) (k + 1) := by
  have hdist : dist s.1 x = dist (segStart pa offset) x - 512 * k := by
    rw [h.dst, dist_add hk, if_pos (by omega)]
  have hnext : dist (segStart pa offset) x - 512 * k - 512 =
      dist (segStart pa offset) x - 512 * (k + 1) := by omega
  rw [write_sectBytes_past sector (by omega), hdist, hnext, spill_succ]
  by_cases hd : dist (segStart pa offset) x - 512 * (k + 1) < 3584
  · rw [if_pos hd, if_pos hd]
  · -- the stray bytes of the sector before end 512 bytes below those of this one
    rw [if_neg hd, if_neg hd, h.outside x (by omega), spill_far _ _ _ _ (by omega)]

/-- One more sector. -/
theorem Spilling.round (h : Spilling m bus i mem pa count offset rounds (left + 1) k s w)
    (hk : k < sectorsFor count offset) (hroom : 512 * sectorsFor count offset ≤ 2 ^ 32) :
    Ends countView (readsegRound s) w fun o w' => ∃ s', o = .ok s' ∧
      Spilling m bus i mem pa count offset rounds left (k + 1) s' w' := by
  refine ends_at h.drive ?_
  refine (readsect_gives s.1 h.sector_lt).then (ends_pure ⟨_, rfl, h.next hk, ?_, fun x hx => ?_⟩)
  · show ((m, bus), i + 896 * k + 896) = _
    rw [Nat.mul_succ, Nat.add_assoc]
  · exact h.spill_next (by omega) hx _

end Spilling

/-! ## 3. The footprint -/

section Footprint

variable (st : Drive × Mem) {pa count offset : UInt32} {e rounds : Nat}

/-- **Every byte outside the sectors when `readseg` is done.** -/
theorem readseg_spills (hlow : offset.toNat % 512 ≤ pa.toNat) (he : CoverEnd pa count offset e)
    (hfit : e < 2 ^ 32) (hrounds : sectorsFor count offset < rounds) :
    (readseg rounds pa count offset st).1 = .ok () ∧
    ∀ x, Outside pa offset e x → (readseg rounds pa count offset st).2.2 x =
      spill st.1.bus st.1.strays (dist (UInt32.ofNat e) x) (st.2 x) (sectorsFor count offset) := by
  have heq := (coverEnd_iff hlow).mp he
  have hstart := toNat_segStart hlow
  have hend : pa.toNat + count.toNat ≤ e := by
    obtain ⟨_, _, hle⟩ := he.1
    exact hle
  have hfirst : Spilling st.1.media st.1.bus st.1.strays st.2 pa count offset rounds rounds 0
      (segStart pa offset, offset / sectsize + 1)
      (((st.1.media, st.1.bus), st.1.strays), st.2) := Spilling.start rounds
  have hread := readseg_rule rounds hlow (by omega) (by omega)
    (fun _ _ _ _ h => h.toPlace) (fun _ _ _ _ h hk => h.round hk (by omega)) hfirst st rfl
  have hok := hread.1 hrounds
  refine ⟨hok, fun x hx => ?_⟩
  obtain ⟨_, _, hlast⟩ := hread.2 hok
  rw [dist_coverEnd hlow he hfit hx]
  exact hlast.outside x ((outside_iff hlow he hfit x).mp hx)

/-- **Besides its sectors `readseg` writes at most the 3584 bytes above them.** -/
theorem readseg_footprint (hlow : offset.toNat % 512 ≤ pa.toNat)
    (he : CoverEnd pa count offset e) (hfit : e < 2 ^ 32)
    (hrounds : sectorsFor count offset < rounds) {x : UInt32} (hx : Outside pa offset e x)
    (hfar : 3584 ≤ dist (UInt32.ofNat e) x) :
    (readseg rounds pa count offset st).2.2 x = st.2 x := by
  rw [(readseg_spills st hlow he hfit hrounds).2 x hx, spill_far _ _ _ _ hfar]

/-- **Each of these bytes may be spoilt, whatever the image**, as soon as a sector is read. -/
theorem readseg_spoils (media : Media) (hlow : offset.toNat % 512 ≤ pa.toNat)
    (he : CoverEnd pa count offset e) (hfit : e < 2 ^ 32)
    (hrounds : sectorsFor count offset < rounds) (hread : 0 < sectorsFor count offset)
    {x : UInt32} (hx : Outside pa offset e x) (hnear : dist (UInt32.ofNat e) x < 3584) :
    (readseg rounds pa count offset (idleDrive media 0, fun _ => 1)).2.2 x = 0 := by
  obtain ⟨n, hn⟩ := Nat.exists_eq_succ_of_ne_zero (Nat.ne_of_gt hread)
  rw [(readseg_spills _ hlow he hfit hrounds).2 x hx, hn, spill_succ, if_pos hnear]
  exact strayByte_zero _ _

end Footprint

/-- The first call of `bootmain` reads eight sectors. -/
theorem header_coverEnd : CoverEnd 0x10000 4096 0 0x11000 :=
  (coverEnd_iff (by decide)).mpr (by decide)

/-- **Nothing outside the sectors changes exactly when no sector is read or the 3584 bytes above
    them already hold what the bus shows behind the last one.** -/
theorem readseg_keeps_outside_iff (st : Drive × Mem) (pa count offset : UInt32) (e : Nat)
    (hlow : offset.toNat % 512 ≤ pa.toNat) (he : CoverEnd pa count offset e) (hfit : e < 2 ^ 32)
    (rounds : Nat) (hrounds : sectorsFor count offset < rounds) :
    (readseg rounds pa count offset st).1 = .ok () ∧
    ((∀ x, Outside pa offset e x → (readseg rounds pa count offset st).2.2 x = st.2 x) ↔
      (count.toNat = 0 ∧ offset.toNat % 512 = 0) ∨
      ∀ x, Outside pa offset e x → dist (UInt32.ofNat e) x < 3584 →
        st.2 x = strayByte st.1.bus (st.1.strays + 896 * (sectorsFor count offset - 1))
          (dist (UInt32.ofNat e) x)) := by
  obtain ⟨hok, hspill⟩ := readseg_spills st hlow he hfit hrounds
  refine ⟨hok, ?_⟩
  rw [← sectorsFor_eq_zero]
  cases hn : sectorsFor count offset with
  | zero =>
    rw [hn] at hspill
    exact ⟨fun _ => Or.inl rfl, fun _ => hspill⟩
  | succ n =>
    rw [hn] at hspill
    rw [Nat.add_sub_cancel]
    constructor
    · intro hkeep
      refine Or.inr fun x hx hnear => ?_
      rw [← hkeep x hx, hspill x hx, spill_succ, if_pos hnear]
    · intro hcond x hx
      have hheld := hcond.resolve_left (Nat.succ_ne_zero n)
      rw [hspill x hx, spill_succ]
      by_cases hnear : dist (UInt32.ofNat e) x < 3584
      · rw [if_pos hnear, hheld x hx hnear]
      · rw [if_neg hnear]

/-- Memory that holds zeros, and a bus that shows them. -/
theorem readseg_keeps_outside_zeros :
    CoverEnd 0x10000 4096 0 0x11000 ∧
    ∀ x, Outside 0x10000 0 0x11000 x → (readseg 9 0x10000 4096 0
      (idleDrive (fun _ _ => SimpleFs.Sector.filled 7) 0, fun _ => 0)).2.2 x = 0 := by
  have he := header_coverEnd
  refine ⟨he, ?_⟩
  exact (readseg_keeps_outside_iff
    (idleDrive (fun _ _ => SimpleFs.Sector.filled 7) 0, fun _ => 0) 0x10000 4096 0 0x11000
    (by decide) he (by decide) 9 (by decide)).2.mpr
    (Or.inr fun _ _ _ => (strayByte_zero _ _).symm)

/-- The first call of `bootmain`: the byte at 0x11000, right behind the eight sectors that hold the
    4096 bytes, is not left alone. -/
theorem readseg_past_sectors :
    CoverEnd 0x10000 4096 0 0x11000 ∧ Outside 0x10000 0 0x11000 0x11000 ∧
    (readseg 9 0x10000 4096 0
      (idleDrive (fun _ _ => SimpleFs.Sector.filled 7) 0, fun _ => 1)).2.2 0x11000 = 0 := by
  have he := header_coverEnd
  have hx : Outside 0x10000 0 0x11000 0x11000 := Or.inr (by decide)
  exact ⟨he, hx, readseg_spoils _ (by decide) he (by decide) (by decide) (by decide) hx (by decide)⟩

end Sprocket.Boot
