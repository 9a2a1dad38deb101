/-
  File:      Sprocket/SimpleFs/FaultFree.lean
  Subject:   FAULT-FREE DISKS, and what the two disk calls do on them.

  A disk is fault-free when every sector holds 512 bytes, a read delivers the first bytes of the
  sector and changes no sector, and a write of at most 512 bytes replaces the first bytes of its
  sector, reports the buffer's length, and leaves the device's other sectors alone. What the
  disk does to its own state beyond the sectors is left open; so is what a write on one device
  does to another (a disk image ignores the device number).

  Code of the file system is reasoned about through `sectors dev`, the sectors of one device:

  * `diskRead_gives`, `diskWrite_gives` -- the two calls, as functions of the sectors;
  * `diskRead_block`, `diskWrite_block` -- the same for whole blocks, which is nearly every call;
  * `MemDisk` -- an in-memory disk, fault-free by construction.
-/
import Mathlib.Data.Set.Defs
import Sprocket.SimpleFs.Ops

namespace Sprocket.SimpleFs

open Bytes Prog

/-- The contents of a sector. -/
abbrev Sector : Type := {b : List UInt8 // b.length = 512}

/-- The sectors of one device. -/
abbrev Sectors : Type := UInt32 → Sector

/-- The sector after its first bytes were replaced by `buf`. -/
def Sector.overwrite (x : Sector) (buf : List UInt8) : Sector :=
  ⟨(buf ++ x.val.drop buf.length).take 512, by
    have := x.property
    simp only [List.length_take, List.length_append, List.length_drop]
    omega⟩

/-- A sector of one byte over and over. -/
def Sector.filled (c : UInt8) : Sector := ⟨List.replicate 512 c, List.length_replicate⟩

/-- A block of zeros. -/
def Sector.zero : Sector := ⟨zeroBlock, List.length_replicate⟩

theorem length_zeroBlock : zeroBlock.length = 512 := List.length_replicate

theorem Sector.overwrite_full (x : Sector) {buf : List UInt8} (h : buf.length = 512) :
    x.overwrite buf = ⟨buf, h⟩ := by
  apply Subtype.ext
  show (buf ++ x.val.drop buf.length).take 512 = buf
  rw [h, List.drop_of_length_le (by rw [x.property]), List.append_nil,
    List.take_of_length_le (by omega)]

theorem Sector.getElem?_overwrite (x : Sector) {buf : List UInt8} (h : buf.length ≤ 512) (i : Nat) :
    (x.overwrite buf).val[i]? = if i < buf.length then buf[i]? else x.val[i]? := by
  show ((buf ++ x.val.drop buf.length).take 512)[i]? = _
  rw [List.getElem?_take, List.getElem?_append]
  have hx := x.property
  by_cases hi : i < 512
  · rw [if_pos hi, List.getElem?_drop]
    split
    · rfl
    · congr 1
      omega
  · rw [if_neg hi, if_neg (by omega), List.getElem?_eq_none (by omega)]

section AnyDisk

variable {S υ : Type} [Disk S] {view : S → υ} {v w : υ} {dev s : UInt32} {buf : List UInt8}

/-- A read that succeeds on every disk the view shows. -/
theorem gives_diskRead {out : List UInt8}
    (h : ∀ x, view x = v → (Disk.read dev s (x, buf)).1 = .ok () ∧
      view (Disk.read dev s (x, buf)).2.1 = w ∧ (Disk.read dev s (x, buf)).2.2 = out) :
    Gives view (diskRead buf dev s) v (.ok out) w := by
  have hr : Gives (onView view) (mapErr FsError.diskFault (Disk.read dev s)) (v, buf) (.ok ())
      (w, out) := by
    refine ends_mapErr ?_
    rintro ⟨x, b⟩ hx
    obtain ⟨hv, rfl⟩ := Prod.mk.inj hx
    obtain ⟨h1, h2, h3⟩ := h x hv
    rw [h1]
    exact ⟨rfl, Prod.ext h2 h3⟩
  exact hr.withLocal_ok.then (gives_pure _)

/-- A read that fails. -/
theorem gives_diskRead_err {e : DiskError}
    (h : ∀ x, view x = v → (Disk.read dev s (x, buf)).1 = .err e ∧
      view (Disk.read dev s (x, buf)).2.1 = w) :
    Gives view (diskRead buf dev s) v (.err (.diskFault e)) w := by
  refine Gives.then_err (ends_withLocal (ends_mapErr ?_))
  rintro ⟨x, b⟩ hx
  obtain ⟨hv, rfl⟩ := Prod.mk.inj hx
  obtain ⟨h1, h2⟩ := h x hv
  rw [h1]
  exact ⟨rfl, h2⟩

theorem gives_diskWrite {n : Nat}
    (h : ∀ x, view x = v → (Disk.write buf dev s x).1 = .ok n ∧
      view (Disk.write buf dev s x).2 = w) :
    Gives view (diskWrite buf dev s) v (.ok n) w := by
  refine ends_mapErr fun x hx => ?_
  obtain ⟨h1, h2⟩ := h x hx
  rw [h1]
  exact ⟨rfl, h2⟩

theorem gives_diskWrite_err {e : DiskError}
    (h : ∀ x, view x = v → (Disk.write buf dev s x).1 = .err e ∧
      view (Disk.write buf dev s x).2 = w) :
    Gives view (diskWrite buf dev s) v (.err (.diskFault e)) w := by
  refine ends_mapErr fun x hx => ?_
  obtain ⟨h1, h2⟩ := h x hx
  rw [h1]
  exact ⟨rfl, h2⟩

end AnyDisk

/-- **A fault-free disk.** -/
class FaultFree (T : Type) [Disk T] where
  contents : T → UInt32 → Sectors
  read_spec (d : T) (buf : List UInt8) (dev s : UInt32) : buf.length ≤ 512 →
    (Disk.read dev s (d, buf)).1 = .ok () ∧
    (Disk.read dev s (d, buf)).2.2 = (contents d dev s).val.take buf.length ∧
    contents (Disk.read dev s (d, buf)).2.1 = contents d
  write_spec (d : T) (buf : List UInt8) (dev s : UInt32) : buf.length ≤ 512 →
    (Disk.write buf dev s d).1 = .ok buf.length ∧
    contents (Disk.write buf dev s d).2 dev =
      Function.update (contents d dev) s ((contents d dev s).overwrite buf)

section Calls

variable {T : Type} [Disk T] [FaultFree T]

/-- The view code on device `dev` is reasoned about through. -/
def sectors (dev : UInt32) (d : T) : Sectors := FaultFree.contents d dev

variable (T) in
/-- The device numbers in `D` name one disk. A single number does; a disk image ignores the
    number, so there all of them do. -/
def OneDisk (D : Set UInt32) : Prop := ∀ a ∈ D, ∀ b ∈ D, sectors (T := T) a = sectors b

/-- A read delivers the first bytes of the sector and changes nothing. -/
theorem diskRead_gives {dev s : UInt32} {buf : List UInt8} {f : Sectors} (h : buf.length ≤ 512) :
    Gives (sectors (T := T) dev) (diskRead buf dev s) f (.ok ((f s).val.take buf.length)) f := by
  refine gives_diskRead ?_
  rintro d rfl
  obtain ⟨h1, h2, h3⟩ := FaultFree.read_spec d buf dev s h
  exact ⟨h1, congrFun h3 dev, h2⟩

/-- A read into a block-sized buffer delivers the sector. -/
theorem diskRead_block {dev s : UInt32} {buf : List UInt8} {f : Sectors} (h : buf.length = 512) :
    Gives (sectors (T := T) dev) (diskRead buf dev s) f (.ok (f s).val) f := by
  have hg : Gives (sectors (T := T) dev) (diskRead buf dev s) f
      (.ok ((f s).val.take buf.length)) f := diskRead_gives (le_of_eq h)
  rwa [h, List.take_of_length_le (le_of_eq (f s).property)] at hg

theorem diskRead_zero {dev s : UInt32} {f : Sectors} :
    Gives (sectors (T := T) dev) (diskRead zeroBlock dev s) f (.ok (f s).val) f :=
  diskRead_block length_zeroBlock

/-- A write replaces the first bytes of its sector. -/
theorem diskWrite_gives {dev s : UInt32} {buf : List UInt8} {f : Sectors} (h : buf.length ≤ 512) :
    Gives (sectors (T := T) dev) (diskWrite buf dev s) f (.ok buf.length)
      (Function.update f s ((f s).overwrite buf)) := by
  refine gives_diskWrite ?_
  rintro d rfl
  exact FaultFree.write_spec d buf dev s h

/-- A write of a whole block. -/
theorem diskWrite_block {dev s : UInt32} {buf : List UInt8} {f : Sectors} (h : buf.length = 512) :
    Gives (sectors (T := T) dev) (diskWrite buf dev s) f (.ok 512)
      (Function.update f s ⟨buf, h⟩) := by
  have hg : Gives (sectors (T := T) dev) (diskWrite buf dev s) f (.ok buf.length)
      (Function.update f s ((f s).overwrite buf)) := diskWrite_gives (le_of_eq h)
  rwa [Sector.overwrite_full _ h, h] at hg

theorem diskWrite_zero {dev s : UInt32} {f : Sectors} :
    Gives (sectors (T := T) dev) (diskWrite zeroBlock dev s) f (.ok 512)
      (Function.update f s Sector.zero) :=
  diskWrite_block length_zeroBlock

end Calls

/-! ## An in-memory disk -/

/-- The sectors of every device. -/
structure MemDisk where
  sector : UInt32 → Sectors

instance : Disk MemDisk where
  read dev s := fun x => (.ok (), (x.1, (x.1.sector dev s).val.take x.2.length ++ x.2.drop 512))
  write buf dev s := fun x =>
    (.ok buf.length, ⟨Function.update x.sector dev
      (Function.update (x.sector dev) s ((x.sector dev s).overwrite buf))⟩)
  length_read dev s x := by
    have := (x.1.sector dev s).property
    simp only [List.length_append, List.length_take, List.length_drop]
    omega

instance : FaultFree MemDisk where
  contents x := x.sector
  read_spec x buf dev s h := by
    refine ⟨rfl, ?_, rfl⟩
    show (x.sector dev s).val.take buf.length ++ buf.drop 512 = _
    rw [List.drop_of_length_le h, List.append_nil]
  write_spec x buf dev s h := by
    refine ⟨rfl, ?_⟩
    show Function.update x.sector dev _ dev = _
    rw [Function.update_self]

end Sprocket.SimpleFs
