/-
  File:      Sprocket/SimpleFs/Offsets.lean
  Subject:   READS AND WRITES AT ANY OFFSET, against the contents of a file.

  `content f i` is the file as a string of bytes. What `read` and `write` should do with it is
  said by `ReadsContent` (the buffer gets the bytes from the offset on) and `WritesContent` (the
  source is spliced in at the offset); what they do depends on the offset within the first block.

  * `read_content_iff` -- a read is right for every buffer of its length exactly when the length is
    seen in full, and it stays in its first block, or starts at a block and is longer than the
    offset plus one block;
  * `write_content_iff` -- a write is right for every source of its length exactly when it stays
    in its first block and appends to the file or ends within it, or starts at 0 and is longer
    than one block.
-/
import Sprocket.SimpleFs.Files

namespace Sprocket.SimpleFs

open Bytes Prog

/-! ## 1. The contents of a file -/

/-- **The bytes of a file**: byte `p` is byte `p % 512` of the block at index `p / 512` (0 where
    no block is mapped). -/
def content (f : Sectors) (i : Inode) : List UInt8 :=
  (List.range i.size.toNat).map fun p => (fileByte f i p).getD 0

theorem length_content (f : Sectors) (i : Inode) : (content f i).length = i.size.toNat := by
  rw [content, List.length_map, List.length_range]

theorem getElem?_content (f : Sectors) (i : Inode) {p : Nat} (hp : p < i.size.toNat) :
    (content f i)[p]? = some ((fileByte f i p).getD 0) := by
  rw [content, List.getElem?_map, List.getElem?_range hp]
  rfl

theorem fileByte_isSome {f : Sectors} {i : Inode} {p : Nat} (hm : i.Maps (p / 512)) :
    ∃ x, fileByte f i p = some x := by
  obtain ⟨b, hb, h0⟩ := hm
  have hlt : p % 512 < (f b).val.length := by
    rw [(f b).property]
    omega
  exact ⟨_, (fileByte_mapped hb h0).trans (List.getElem?_eq_getElem hlt)⟩

/-- In a mapped block the contents are the bytes of the file. -/
theorem getElem?_content_mapped {f : Sectors} {i : Inode} {p : Nat} (hp : p < i.size.toNat)
    (hm : i.Maps (p / 512)) : (content f i)[p]? = fileByte f i p := by
  obtain ⟨x, hx⟩ := fileByte_isSome (f := f) hm
  rw [getElem?_content f i hp, hx]
  rfl

/-- Every block below the size is mapped. -/
def Inode.Whole (i : Inode) : Prop := ∀ k, k < (i.size.toNat + 511) / 512 → i.Maps k

theorem Inode.Whole.maps {i : Inode} (h : i.Whole) {p : Nat} (hp : p < i.size.toNat) :
    i.Maps (p / 512) := h _ (by omega)

theorem Inode.whole_of_maps {i : Inode} (h : ∀ p, p < i.size.toNat → i.Maps (p / 512)) :
    i.Whole := by
  intro k hk
  have hm := h (512 * k) (by omega)
  rwa [Nat.mul_div_cancel_left k (by decide)] at hm

/-- The inode has room for 64 blocks. -/
theorem Inode.Whole.size_le {i : Inode} (h : i.Whole) : i.size.toNat ≤ 32768 := by
  by_contra hlt
  obtain ⟨b, hb, _⟩ := h 64 (by omega)
  rw [Vector.getElem?_eq_none (by decide)] at hb
  cases hb

/-! ## 2. Reading -/

section Reading

variable {T : Type} [Disk T] [FaultFree T]

/-- The number of bytes a read of `n` bytes at `offset` is to deliver. -/
def readLen (i : Inode) (offset : UInt32) (n : Nat) : Nat :=
  min n (i.size.toNat - offset.toNat)

/-- **The read is right**: it reports the bytes up to the end of the file or of the buffer, the
    buffer starts with them, and the rest of the buffer is as it was. -/
def ReadsContent (d : T) (i : Inode) (offset : UInt32) (buf : List UInt8) : Prop :=
  (read i offset (d, buf)).1 = .ok (readLen i offset buf.length) ∧
  (read i offset (d, buf)).2.2 =
    slice (content (sectors i.device d) i) offset.toNat (readLen i offset buf.length) ++
      buf.drop (readLen i offset buf.length)

variable {dev : UInt32} {f : Sectors} {i : Inode}

/-- Filling the buffer with the file from the offset on is what a read is for. -/
theorem Fills.content {buf out : List UInt8} {offset m : Nat}
    (h : Fills f i buf 0 m offset out) (hwhole : i.Whole) (hm : offset + m ≤ i.size.toNat) :
    out = slice (content f i) offset m ++ buf.drop m := by
  have hlen : (slice (SimpleFs.content f i) offset m).length = m :=
    length_slice_of_le (by rw [length_content]; exact hm)
  refine List.ext_getElem? fun t => ?_
  rw [h.bytes t, List.getElem?_append, hlen]
  by_cases ht : t < m
  · rw [if_pos ⟨Nat.zero_le t, ht⟩, if_pos ht, getElem?_slice, if_pos ht, Nat.sub_zero,
      getElem?_content_mapped (by omega) (hwhole.maps (by omega))]
  · rw [if_neg (by omega), if_neg ht, List.getElem?_drop]
    congr 1
    omega

/-- The reads that are right for every buffer: `m` bytes from `offset` on. -/
abbrev ReadFits (offset m : Nat) : Prop :=
  m ≤ 512 - offset % 512 ∨ (offset % 512 = 0 ∧ offset + 512 < m)

/-- **A read that fits fills the buffer**; one that does not leaves the byte behind the first
    block as it was. -/
theorem readBytes_fits (f : Sectors) (offset len : Nat) {buf : List UInt8} (hdev : i.device = dev)
    (hwhole : i.Whole) (hsize : i.size.toNat ≤ 32768) (hlen : len ≤ buf.length)
    (hend : offset + len ≤ i.size.toNat) (hlt : offset < i.size.toNat) :
    ∃ out, Gives (bufView (T := T) dev) (readBytes i offset len) (f, buf) (.ok len) (f, out) ∧
      (ReadFits offset len → Fills f i buf 0 len offset out) ∧
      (¬ ReadFits offset len → out[512 - offset % 512]? = buf[512 - offset % 512]?) := by
  have hfirst : i.Maps (offset / 512) := hwhole.maps hlt
  by_cases hshort : len ≤ offset + (512 - offset % 512)
  · obtain ⟨out, hout, hfill⟩ := readBytes_first (T := T) f offset len hdev hfirst (by omega) hlen
      hshort
    refine ⟨out, hout, ?_, ?_⟩
    · intro h
      rwa [show firstRead offset len = len by unfold firstRead; omega] at hfill
    · intro h
      rw [hfill.bytes, if_neg (by unfold firstRead; omega)]
  · obtain ⟨mid, out, hout, hfill, hrest⟩ := readBytes_rest (T := T) f offset len hdev
      (fun m hm => hwhole m (by omega)) (by omega) hlen (by omega)
    refine ⟨out, hout, ?_, ?_⟩
    · intro h
      rw [show 512 - offset % 512 = 512 by omega] at hfill hrest
      exact hfill.append (by omega) (by omega) hrest
    · intro h
      rw [hrest.bytes, if_neg (by omega), hfill.bytes, if_neg (by omega)]

/-- The checks before the first block see what is to be read: they cut the length of the buffer
    to 32 bits, and its end must be a 32-bit number. -/
abbrev LengthSeen (i : Inode) (offset : UInt32) (n : Nat) : Prop :=
  offset.toNat + n % 2 ^ 32 < 2 ^ 32 ∧ readLen i offset (n % 2 ^ 32) = readLen i offset n

/-- A slice of a 32-bit machine has fewer than `2 ^ 31` bytes. -/
theorem lengthSeen_of_slice {offset : UInt32} {n : Nat} (hsize : i.size.toNat ≤ 32768)
    (hoff : offset.toNat < i.size.toNat) (hn : n < 2 ^ 31) : LengthSeen i offset n := by
  rw [LengthSeen, Nat.mod_eq_of_lt (show n < 2 ^ 32 by omega)]
  exact ⟨by omega, rfl⟩

section Runs

variable {d : T} {offset : UInt32} {buf : List UInt8} (hunused : i.type_ ≠ .unused)
  (hsize : i.size.toNat ≤ 32768) (hwhole : i.Whole) (hoff : offset.toNat < i.size.toNat)

include hunused

/-- A buffer whose end is no 32-bit number is refused. -/
theorem read_refused (f : Sectors) (hsum : 2 ^ 32 ≤ offset.toNat + buf.length % 2 ^ 32) :
    Gives (bufView (T := T) i.device) (read i offset) (f, buf) (.err .readTooLarge) (f, buf) := by
  refine read_checked hunused ?_
  rw [if_pos (Or.inr hsum)]
  exact gives_fail _

include hsize hwhole hoff

/-- The call, when it is not refused: it reports the length its checks saw. -/
theorem read_fits (f : Sectors) (hsum : offset.toNat + buf.length % 2 ^ 32 < 2 ^ 32) :
    ∃ out, Gives (bufView (T := T) i.device) (read i offset) (f, buf)
        (.ok (readLen i offset (buf.length % 2 ^ 32))) (f, out) ∧
      (ReadFits offset.toNat (readLen i offset (buf.length % 2 ^ 32)) →
        Fills f i buf 0 (readLen i offset (buf.length % 2 ^ 32)) offset.toNat out) ∧
      (¬ ReadFits offset.toNat (readLen i offset (buf.length % 2 ^ 32)) →
        out[512 - offset.toNat % 512]? = buf[512 - offset.toNat % 512]?) := by
  have hle : readLen i offset (buf.length % 2 ^ 32) ≤ buf.length % 2 ^ 32 := Nat.min_le_left _ _
  have hcut : buf.length % 2 ^ 32 ≤ buf.length := Nat.mod_le _ _
  have hbound : readLen i offset (buf.length % 2 ^ 32) ≤ i.size.toNat - offset.toNat :=
    Nat.min_le_right _ _
  obtain ⟨out, hout, hfit, hmiss⟩ := readBytes_fits (T := T) f offset.toNat
    (readLen i offset (buf.length % 2 ^ 32)) rfl hwhole hsize (Nat.le_trans hle hcut) (by omega)
    hoff
  refine ⟨out, read_checked hunused ?_, hfit, hmiss⟩
  rw [if_neg (by omega)]
  exact hout

theorem readsContent_of_fits (hseen : LengthSeen i offset buf.length)
    (hfits : ReadFits offset.toNat (readLen i offset buf.length)) :
    ReadsContent d i offset buf := by
  obtain ⟨out, hout, hfit, _⟩ :=
    read_fits (T := T) hunused hsize hwhole hoff (sectors i.device d) hseen.1
  rw [hseen.2] at hout hfit
  obtain ⟨hok, hstate⟩ := hout (d, buf) rfl
  have hsnd : (read i offset (d, buf)).2.2 = out := congrArg Prod.snd hstate
  have hbound : readLen i offset buf.length ≤ i.size.toNat - offset.toNat := Nat.min_le_right _ _
  refine ⟨hok, ?_⟩
  rw [hsnd]
  exact (hfit hfits).content hwhole (by omega)

/-- A read that is right was not refused, and reports what it was to deliver. -/
theorem ReadsContent.lengthSeen (h : ReadsContent d i offset buf) :
    LengthSeen i offset buf.length := by
  by_cases hsum : offset.toNat + buf.length % 2 ^ 32 < 2 ^ 32
  · obtain ⟨out, hout, _⟩ :=
      read_fits (T := T) hunused hsize hwhole hoff (sectors i.device d) hsum
    have hok := (hout (d, buf) rfl).1
    rw [h.1] at hok
    exact ⟨hsum, (Outcome.ok.inj hok).symm⟩
  · have herr := (read_refused (T := T) hunused (sectors i.device d)
      (Nat.le_of_not_lt hsum) (d, buf) rfl).1
    rw [h.1] at herr
    cases herr

/-- The byte behind the first block is not delivered: a buffer that differs from the file there is
    not filled. -/
theorem not_readsContent (hfits : ¬ ReadFits offset.toNat (readLen i offset buf.length))
    (hdiff : buf[512 - offset.toNat % 512]? ≠
      (content (sectors i.device d) i)[offset.toNat + (512 - offset.toNat % 512)]?) :
    ¬ ReadsContent d i offset buf := by
  intro h
  have hseen := h.lengthSeen hunused hsize hwhole hoff
  obtain ⟨out, hout, _, hmiss⟩ :=
    read_fits (T := T) hunused hsize hwhole hoff (sectors i.device d) hseen.1
  rw [hseen.2] at hout hmiss
  obtain ⟨_, hstate⟩ := hout (d, buf) rfl
  have hsnd : (read i offset (d, buf)).2.2 = out := congrArg Prod.snd hstate
  have hbound : readLen i offset buf.length ≤ i.size.toNat - offset.toNat := Nat.min_le_right _ _
  have hlt : 512 - offset.toNat % 512 < readLen i offset buf.length := by omega
  have hbyte := hmiss hfits
  rw [← hsnd, h.2, List.getElem?_append_left, getElem?_slice, if_pos hlt] at hbyte
  · exact hdiff hbyte.symm
  · rw [length_slice, length_content]
    omega

end Runs

/-- **When a read is right.** On a fault-free disk, for a file whose blocks are mapped up to its
    size and a read that starts within it: the read delivers the contents into every buffer of
    `n` bytes exactly when its checks see the length (as they do for every slice,
    `lengthSeen_of_slice`), and it ends with its first block, or starts at a block and is more
    than one block longer than its offset. -/
theorem read_content_iff (d : T) (i : Inode) (offset : UInt32) (n : Nat)
    (htype : i.type_ = .file ∨ i.type_ = .directory) (hsize : i.size.toNat ≤ maxFile * blockSize)
    (hwhole : i.Whole) (hoff : offset.toNat < i.size.toNat) :
    (∀ buf : List UInt8, buf.length = n → ReadsContent d i offset buf) ↔
      LengthSeen i offset n ∧ ReadFits offset.toNat (readLen i offset n) := by
  have hmax : i.size.toNat ≤ 32768 := hsize
  have hunused := InodeType.ne_unused htype
  constructor
  · intro h
    have hlen : ∀ x : UInt8, (List.replicate n x).length = n := fun _ => List.length_replicate
    have hseen := (h _ (hlen 0)).lengthSeen hunused hmax hwhole hoff
    rw [hlen] at hseen
    refine ⟨hseen, ?_⟩
    by_contra hfits
    have hbound : readLen i offset n ≤ i.size.toNat - offset.toNat := Nat.min_le_right _ _
    have hle : readLen i offset n ≤ n := Nat.min_le_left _ _
    have hlt : 512 - offset.toNat % 512 < readLen i offset n := by omega
    obtain ⟨x, hx⟩ : ∃ x, (content (sectors i.device d) i)[offset.toNat +
        (512 - offset.toNat % 512)]? = some x := ⟨_, getElem?_content _ _ (by omega)⟩
    refine not_readsContent hunused hmax hwhole hoff (by rw [hlen]; exact hfits) ?_
      (h _ (hlen (x + 1)))
    rw [hx, List.getElem?_replicate, if_pos (Nat.lt_of_lt_of_le hlt hle)]
    simp
  · intro ⟨hseen, hfits⟩ buf hbuf
    subst hbuf
    exact readsContent_of_fits hunused hmax hwhole hoff hseen hfits

end Reading

/-- A disk whose blocks are filled with sevens. -/
def sevensDisk : MemDisk := ⟨fun _ _ => Sector.filled 7⟩

/-- A file of 600 bytes in blocks 300 and 301. -/
def twoBlockInode : Inode where
  type_ := .file
  device := 1
  major := 0
  minor := 0
  size := 600
  blocks := Vector.ofFn fun k => if k = 0 then 300 else if k = 1 then 301 else 0

theorem twoBlockInode_whole : twoBlockInode.Whole := by
  intro k hk
  match k with
  | 0 => exact ⟨300, by decide, by decide⟩
  | 1 => exact ⟨301, by decide, by decide⟩
  | k + 2 =>
    have hlt : k + 2 < 2 := hk
    omega

/-- All of the file, read from its start. -/
theorem read_content_twoBlocks : ReadsContent sevensDisk twoBlockInode 0 (List.replicate 600 0) :=
  (read_content_iff sevensDisk twoBlockInode 0 600 (Or.inl rfl) (by decide) twoBlockInode_whole
    (by decide)).mpr ⟨lengthSeen_of_slice (by decide) (by decide) (by decide), Or.inr (by decide)⟩
    _ List.length_replicate

/-- **A read across a block boundary reports bytes it did not deliver.** Of 100 bytes at offset
    500 only the 12 of the first block arrive; `Ok(100)` is returned. -/
theorem read_stops_at_block :
    (read twoBlockInode 500 (sevensDisk, List.replicate 100 0)).1 = .ok 100 ∧
    (read twoBlockInode 500 (sevensDisk, List.replicate 100 0)).2.2 =
      List.replicate 12 7 ++ List.replicate 88 0 ∧
    slice (content (sectors 1 sevensDisk) twoBlockInode) 500 100 = List.replicate 100 7 ∧
    ¬ ReadsContent sevensDisk twoBlockInode 500 (List.replicate 100 0) := by
  have hout : (read twoBlockInode 500 (sevensDisk, List.replicate 100 0)).2.2 =
      List.replicate 12 7 ++ List.replicate 88 0 := by decide +kernel
  have hwant : slice (content (sectors 1 sevensDisk) twoBlockInode) 500 100 =
      List.replicate 100 7 := by decide +kernel
  refine ⟨by decide +kernel, hout, hwant, ?_⟩
  intro h
  have hright : List.replicate 12 7 ++ List.replicate 88 0 =
      slice (content (sectors 1 sevensDisk) twoBlockInode) 500 100 ++
        (List.replicate 100 0).drop 100 := hout.symm.trans h.2
  rw [hwant] at hright
  exact absurd hright (by decide)

/-! ## 3. Writing -/

/-- **The source was spliced in**: from `f`, `i` to `g`, `j` the file has grown as far as the
    source reaches, its blocks are mapped, and it holds the source at the offset and its own
    bytes elsewhere. -/
structure Spliced (f : Sectors) (i : Inode) (offset : Nat) (src : List UInt8) (g : Sectors)
    (j : Inode) : Prop where
  size : j.size.toNat = max i.size.toNat (offset + src.length)
  mapped : ∀ p, p < j.size.toNat → j.Maps (p / 512)
  bytes : ∀ p, p < j.size.toNat → fileByte g j p =
    if offset ≤ p ∧ p < offset + src.length then src[p - offset]? else fileByte f i p

theorem Spliced.content {f g : Sectors} {i j : Inode} {offset : Nat} {src : List UInt8}
    (h : Spliced f i offset src g j) (hwhole : i.Whole) (hoff : offset ≤ i.size.toNat) :
    content g j = splice (content f i) offset src := by
  have hsize := h.size
  refine List.ext_getElem? fun p => ?_
  rw [getElem?_splice (by rw [length_content]; exact hoff)]
  by_cases hp : p < j.size.toNat
  · rw [getElem?_content_mapped hp (h.mapped p hp), h.bytes p hp]
    by_cases hlow : p < offset
    · rw [if_neg (by omega), if_pos hlow,
        getElem?_content_mapped (by omega) (hwhole.maps (by omega))]
    · by_cases hin : p < offset + src.length
      · rw [if_pos (by omega), if_neg hlow, if_pos hin]
      · rw [if_neg (by omega), if_neg hlow, if_neg hin,
          getElem?_content_mapped (by omega) (hwhole.maps (by omega))]
  · rw [if_neg (by omega), if_neg (by omega), List.getElem?_eq_none (by rw [length_content]; omega),
      List.getElem?_eq_none (by rw [length_content]; omega)]

section Writing

variable {T : Type} [Disk T] [FaultFree T]

/-- **The write is right**: it reports the length of the source, the size covers the source, the
    blocks up to the size are mapped, and the contents are the old ones with the source spliced
    in at the offset. -/
def WritesContent (d : T) (i : Inode) (offset : UInt32) (src : List UInt8) : Prop :=
  (write src offset (d, i)).1 = .ok src.length ∧
  (write src offset (d, i)).2.2.size.toNat = max i.size.toNat (offset.toNat + src.length) ∧
  (write src offset (d, i)).2.2.Whole ∧
  content (sectors i.device (write src offset (d, i)).2.1) (write src offset (d, i)).2.2 =
    splice (content (sectors i.device d) i) offset.toNat src

/-- What the disk reports for a first block that takes in all `n` bytes: at the start of a block
    the bytes alone are written, elsewhere the whole block. -/
def firstReach (offset n : Nat) : Nat := if offset % 512 = 0 then n else 512

/-- The writes that are right for every source: `n` bytes at `offset` of a file of `size`
    bytes. -/
abbrev WriteFits (size offset n : Nat) : Prop :=
  (n ≤ 512 - offset % 512 ∧ (size = offset ∨ offset + firstReach offset n ≤ size)) ∨
  (offset = 0 ∧ 512 < n)

variable {dev : UInt32} {f : Sectors} {i : Inode} {st : List UInt32}

/-- A right write put the bytes of the source where they belong. -/
theorem WritesContent.byte {d : T} {offset : UInt32} {src : List UInt8} {g : Sectors} {j : Inode}
    {o : Outcome FsError Nat} (h : WritesContent d i offset src)
    (hg : Gives (fileView (T := T) i.device) (write src offset) (sectors i.device d, i) o (g, j))
    (hoff : offset.toNat ≤ i.size.toNat) {t : Nat} (ht : t < src.length) :
    src[t]? = some ((fileByte g j (offset.toNat + t)).getD 0) := by
  obtain ⟨_, hsize, _, hcontent⟩ := h
  obtain ⟨_, hstate⟩ := hg (d, i) rfl
  obtain ⟨hsec, hinode⟩ := Prod.mk.inj hstate
  have hj : (write src offset (d, i)).2.2 = j := hinode
  have hs : sectors i.device (write src offset (d, i)).2.1 = g := hsec
  rw [hj] at hsize hcontent
  rw [hs] at hcontent
  rw [← getElem?_content g j (by omega), hcontent,
    getElem?_splice (by rw [length_content]; exact hoff), if_neg (by omega), if_pos (by omega)]
  congr 1
  omega

theorem firstWritten_inside {src : List UInt8} {offset : Nat}
    (hin : src.length ≤ 512 - offset % 512) :
    firstWritten src offset = firstReach offset src.length := by
  unfold firstWritten firstReach
  by_cases h : offset % 512 = 0
  · rw [if_neg (by omega), if_pos h]
    omega
  · rw [if_pos h, if_neg h]

theorem le_firstReach {offset n : Nat} (hin : n ≤ 512 - offset % 512) :
    n ≤ firstReach offset n := by
  unfold firstReach
  split <;> omega

/-- A first block that takes in the source, and the size that covers it. -/
theorem Wrote.spliced {g : Sectors} {j : Inode} {st' : List UInt32} {offset : Nat}
    {src : List UInt8} {size : UInt32} (hwhole : i.Whole) (hoff : offset ≤ i.size.toNat)
    (hin : src.length ≤ 512 - offset % 512)
    (hw : Wrote f i st (offset / 512) ((blockOf f i (offset / 512)).patch offset src) g j st')
    (hsize : size.toNat = max i.size.toNat (offset + src.length)) :
    Spliced f i offset src g { j with size := size } where
  size := hsize
  mapped p hp := by
    have hlt : p < max i.size.toNat (offset + src.length) := Nat.lt_of_lt_of_eq hp hsize
    show j.Maps (p / 512)
    by_cases hhere : p / 512 = offset / 512
    · rw [hhere]
      exact hw.mapped
    · exact hw.grew.maps (hwhole.maps (by omega))
  bytes p hp := by
    have hlt : p < max i.size.toNat (offset + src.length) := Nat.lt_of_lt_of_eq hp hsize
    show fileByte g j p = _
    by_cases hhere : p / 512 = offset / 512
    · rw [hw.here p hhere, Sector.getElem?_patch _ _ _ (by omega)]
      by_cases hsrc : offset ≤ p ∧ p < offset + src.length
      · rw [if_pos (by omega), if_pos hsrc]
        congr 1
        omega
      · rw [if_neg (by omega), if_neg hsrc, ← hhere]
        exact getElem?_blockOf (hwhole.maps (by omega))
    · rw [hw.elsewhere p hhere, if_neg (by omega)]

/-- **A write within its first block** splices the source in; but where it does not append and
    the first block reaches past the end, the size grows by the length of the source. -/
theorem writeBytes_inside (ho : Own f i st) (hdev : i.device = dev) (hwhole : i.Whole)
    (src : List UInt8) (offset : Nat) (hoff : offset ≤ i.size.toNat) (hlt : offset < 32768)
    (hfree : toMap i (offset / 512) ≤ st.length) (hin : src.length ≤ 512 - offset % 512) :
    ∃ g j, Gives (fileView (T := T) dev) (writeBytes src offset) (f, i) (.ok src.length) (g, j) ∧
      (WriteFits i.size.toNat offset src.length → Spliced f i offset src g j) ∧
      (¬ WriteFits i.size.toNat offset src.length →
        j.size.toNat = i.size.toNat + src.length ∧ offset < i.size.toNat) := by
  have hmax := hwhole.size_le
  have hreach := le_firstReach hin
  obtain ⟨g, j, st', hg, hw⟩ := writeBytes_first (T := T) ho hdev src offset hlt (by omega)
    (by omega) hfree (by rw [firstWritten_inside hin]; omega)
  rw [firstWritten_inside hin] at hg
  by_cases hpast : i.size.toNat < offset + firstReach offset src.length
  · have hnat : (UInt32.ofNat (i.size.toNat + src.length)).toNat = i.size.toNat + src.length := by
      rw [UInt32.toNat_ofNat', Nat.mod_eq_of_lt (by omega)]
    rw [if_pos hpast] at hg
    refine ⟨g, _, hg, ?_, ?_⟩
    · intro hfits
      exact hw.spliced hwhole hoff hin (by omega)
    · intro hfits
      exact ⟨hnat, by omega⟩
  · rw [if_neg hpast] at hg
    have hsize : j.size.toNat = max i.size.toNat (offset + src.length) := by
      rw [hw.size]
      omega
    have hs := hw.spliced hwhole hoff hin hsize
    exact ⟨g, j, hg, fun _ => hs, fun hfits => absurd (Or.inl ⟨hin, by omega⟩) hfits⟩

/-- **What does not fit into the first block is lost** when the write ends there: the byte behind
    that block is as it was. -/
theorem writeBytes_cut (ho : Own f i st) (hdev : i.device = dev) (src : List UInt8) (offset : Nat)
    (hlt : offset < 32768) (hsrc : src.length ≤ 32768) (hsize : i.size.toNat ≤ 32768)
    (hfree : toMap i (offset / 512) ≤ st.length)
    (hend : src.length ≤ offset + firstWritten src offset) :
    ∃ g j, Gives (fileView (T := T) dev) (writeBytes src offset) (f, i) (.ok src.length) (g, j) ∧
      fileByte g j (offset + (512 - offset % 512)) =
        fileByte f i (offset + (512 - offset % 512)) := by
  obtain ⟨g, j, st', hg, hw⟩ := writeBytes_first (T := T) ho hdev src offset hlt (by omega)
    (by omega) hfree hend
  have hkeep := hw.elsewhere (offset + (512 - offset % 512)) (by omega)
  refine ⟨g, _, hg, ?_⟩
  split
  · exact hkeep
  · exact hkeep

/-- The freelist has the blocks the write needs. -/
abbrev Enough (i : Inode) (offset n : Nat) (st : List UInt32) : Prop :=
  needed i (512 * (offset / 512)) (offset + n) ≤ st.length

theorem Enough.rest {offset n : Nat} (h : Enough i offset n st) (hn : 0 < n) :
    toMap i (offset / 512) + needed i (offset + 512) n ≤ st.length := by
  have hmono : needed i (offset + 512) n ≤ needed i (512 * (offset / 512) + 512) (offset + n) :=
    needed_mono i (by omega) (by omega)
  rw [Enough, needed_cons i (by omega), Nat.mul_div_cancel_left _ (by decide)] at h
  omega

/-- **The chunk loop takes up the source at the wrong index** unless the write started at 0: the
    byte behind the first block is the one at the offset the write has reached. -/
theorem writeBytes_misplaced (ho : Own f i st) (hdev : i.device = dev) (src : List UInt8)
    (offset : Nat) (hlt : offset < 32768) (hsrc : src.length ≤ 32768)
    (hfree : toMap i (offset / 512) + needed i (offset + 512) src.length ≤ st.length)
    (hmore : offset + firstWritten src offset < src.length) :
    ∃ g j, Gives (fileView (T := T) dev) (writeBytes src offset) (f, i) (.ok src.length) (g, j) ∧
      offset + 512 < src.length ∧
      fileByte g j (offset + (512 - offset % 512)) = src[offset + 512]? := by
  have hreach : offset + 512 < src.length := by
    unfold firstWritten at hmore
    by_cases h : offset % 512 ≠ 0
    · rwa [if_pos h] at hmore
    · rw [if_neg h] at hmore
      omega
  obtain ⟨g, j, st', g', j', st'', hg, hw, hr⟩ := writeBytes_rest (T := T) ho hdev src offset hlt
    hsrc hfree hmore
  have hput := hr.stored (offset + 512) (Nat.le_refl _) hreach
  rw [show offset + 512 - (offset + 512) % 512 = offset + (512 - offset % 512) by omega] at hput
  refine ⟨g', _, hg, hreach, ?_⟩
  split
  · exact hput
  · exact hput

/-- **A write of more than one block from the start of the file** splices the source in. -/
theorem writeBytes_fromStart (ho : Own f i st) (hdev : i.device = dev) (hwhole : i.Whole)
    (src : List UInt8) (hsrc : src.length ≤ 32768)
    (hfree : toMap i 0 + needed i 512 src.length ≤ st.length) (hlong : 512 < src.length) :
    ∃ g j, Gives (fileView (T := T) dev) (writeBytes src 0) (f, i) (.ok src.length) (g, j) ∧
      Spliced f i 0 src g j := by
  have hfw : firstWritten src 0 = 512 := by
    rw [firstWritten, if_neg (by decide)]
    omega
  obtain ⟨g, j, st', g', j', st'', hg, hw, hr⟩ := writeBytes_rest (T := T) ho hdev src 0
    (by decide) hsrc hfree (by omega)
  have hnat : (UInt32.ofNat src.length).toNat = src.length := by
    rw [UInt32.toNat_ofNat', Nat.mod_eq_of_lt (by omega)]
  have hspliced : ∀ size : UInt32, size.toNat = max i.size.toNat (0 + src.length) →
      Spliced f i 0 src g' { j' with size := size } := by
    intro size hsize
    refine ⟨hsize, ?_, ?_⟩
    · intro p hp
      have hlt : p < max i.size.toNat (0 + src.length) := Nat.lt_of_lt_of_eq hp hsize
      show j'.Maps (p / 512)
      by_cases hzero : p / 512 = 0
      · rw [hzero]
        exact hr.grew.maps hw.mapped
      · by_cases hin : 512 * (p / 512) < src.length
        · exact hr.mapped _ (by omega) (by omega)
        · exact hr.grew.maps (hw.grew.maps (hwhole.maps (by omega)))
    · intro p hp
      have hlt : p < max i.size.toNat (0 + src.length) := Nat.lt_of_lt_of_eq hp hsize
      show fileByte g' j' p = _
      by_cases hin : p < src.length
      · rw [if_pos (by omega), Nat.sub_zero]
        by_cases hblock : p < 512
        · rw [hr.below p (by omega), hw.here p (by omega), Sector.getElem?_patch _ _ _ (by omega),
            if_pos (by omega)]
          congr 1
          omega
        · exact hr.stored p (by omega) hin
      · rw [if_neg (by omega),
          hr.behind p (by omega) (hw.grew.maps (hwhole.maps (by omega))),
          hw.elsewhere p (by omega)]
  refine ⟨g', _, hg, ?_⟩
  by_cases hs : i.size.toNat < src.length
  · rw [if_pos hs]
    exact hspliced _ (by omega)
  · rw [if_neg hs]
    have hsame : j'.size = i.size := hr.size.trans hw.size
    exact hspliced j'.size (by rw [hsame]; omega)

/-- Both halves of the case that fits, as a run of `write`. -/
theorem writesContent_of_spliced {d : T} {offset : UInt32} {src : List UInt8} {g : Sectors}
    {j : Inode} (hwhole : i.Whole) (hoff : offset.toNat ≤ i.size.toNat)
    (hg : Gives (fileView (T := T) i.device) (write src offset) (sectors i.device d, i)
      (.ok src.length) (g, j))
    (hs : Spliced (sectors i.device d) i offset.toNat src g j) : WritesContent d i offset src := by
  obtain ⟨hok, hstate⟩ := hg (d, i) rfl
  obtain ⟨hsec, hinode⟩ := Prod.mk.inj hstate
  have hj : (write src offset (d, i)).2.2 = j := hinode
  have hd : sectors i.device (write src offset (d, i)).2.1 = g := hsec
  refine ⟨hok, ?_, ?_, ?_⟩
  · rw [hj]
    exact hs.size
  · rw [hj]
    exact Inode.whole_of_maps hs.mapped
  · rw [hj, hd]
    exact hs.content hwhole hoff

section Wrong

variable {d : T} {offset : UInt32} {n : Nat} (hunused : i.type_ ≠ .unused)
  (hown : Own (sectors i.device d) i st) (hwhole : i.Whole) (hoff : offset.toNat ≤ i.size.toNat)
  (hn : 0 < n) (hmax : offset.toNat + n ≤ 32768) (hfree : Enough i offset.toNat n st)

include hunused hown hwhole hoff hn hmax hfree

/-- Within the first block the size is wrong, whatever the source. -/
theorem not_writesContent_inside (hin : n ≤ 512 - offset.toNat % 512)
    (hfits : ¬ WriteFits i.size.toNat offset.toNat n) {src : List UInt8} (hlen : src.length = n) :
    ¬ WritesContent d i offset src := by
  intro h
  subst hlen
  obtain ⟨g, j, hg, _, hmiss⟩ := writeBytes_inside (T := T) hown rfl hwhole src offset.toNat
    hoff (by omega) (Nat.le_trans (Nat.le_add_right _ _) (hfree.rest hn)) hin
  obtain ⟨_, hstate⟩ := write_gives hunused hoff hmax hg (d, i) rfl
  have hj : (write src offset (d, i)).2.2 = j := congrArg Prod.snd hstate
  obtain ⟨hwrong, hlt⟩ := hmiss hfits
  have hgrown := h.2.1
  rw [hj, hwrong] at hgrown
  omega

/-- A write that is cut off at its first block does not write the byte behind it: a source that
    differs from the file there is not spliced in. -/
theorem not_writesContent_cut {src : List UInt8} (hlen : src.length = n)
    (hout : 512 - offset.toNat % 512 < n)
    (hend : n ≤ offset.toNat + firstWritten src offset.toNat)
    (hdiff : src[512 - offset.toNat % 512]? ≠ some ((fileByte (sectors i.device d) i
      (offset.toNat + (512 - offset.toNat % 512))).getD 0)) :
    ¬ WritesContent d i offset src := by
  intro h
  subst hlen
  obtain ⟨g, j, hg, hkeep⟩ := writeBytes_cut (T := T) hown rfl src offset.toNat (by omega)
    (by omega) hwhole.size_le (Nat.le_trans (Nat.le_add_right _ _) (hfree.rest hn)) hend
  have hbyte := h.byte (write_gives hunused hoff hmax hg) hoff hout
  rw [hkeep] at hbyte
  exact hdiff hbyte

omit hwhole in
/-- A write that goes on puts another byte of the source there: a source where the two differ is
    not spliced in. -/
theorem not_writesContent_misplaced {src : List UInt8} (hlen : src.length = n)
    (hout : 512 - offset.toNat % 512 < n)
    (hmore : offset.toNat + firstWritten src offset.toNat < n)
    (hdiff : src[512 - offset.toNat % 512]? ≠ src[offset.toNat + 512]?) :
    ¬ WritesContent d i offset src := by
  intro h
  subst hlen
  obtain ⟨g, j, hg, hlong, hput⟩ := writeBytes_misplaced (T := T) hown rfl src offset.toNat
    (by omega) (by omega) (hfree.rest hn) hmore
  have hbyte := h.byte (write_gives hunused hoff hmax hg) hoff hout
  rw [hput, List.getElem?_eq_getElem hlong] at hbyte
  rw [List.getElem?_eq_getElem hlong] at hdiff
  exact hdiff hbyte

end Wrong

/-- **When a write is right.** On a fault-free disk, for a file that owns its blocks, mapped up to
    its size, a freelist with the blocks that are needed, and a write that starts within the file
    or at its end: the write splices every source of `n` bytes into the contents exactly when it
    stays in its first block and either appends or does not reach past the end, or when it starts
    at 0 and is longer than one block. -/
theorem write_content_iff (d : T) (i : Inode) (offset : UInt32) (n : Nat) (st : List UInt32)
    (htype : i.type_ = .file ∨ i.type_ = .directory) (hown : Own (sectors i.device d) i st)
    (hwhole : i.Whole) (hoff : offset.toNat ≤ i.size.toNat) (hn : 0 < n)
    (hmax : offset.toNat + n ≤ maxFile * blockSize) (hfree : Enough i offset.toNat n st) :
    (∀ src : List UInt8, src.length = n → WritesContent d i offset src) ↔
      WriteFits i.size.toNat offset.toNat n := by
  have hmax' : offset.toNat + n ≤ 32768 := hmax
  have hunused := InodeType.ne_unused htype
  have hrest := hfree.rest hn
  constructor
  · intro h
    by_contra hfits
    by_cases hin : n ≤ 512 - offset.toNat % 512
    · have hlen : (List.replicate n (0 : UInt8)).length = n := List.length_replicate
      exact not_writesContent_inside hunused hown hwhole hoff hn hmax' hfree hin hfits hlen
        (h _ hlen)
    · -- one source for both ways to miss the byte behind the first block: there it differs from
      -- the file and from every other byte of its own
      obtain ⟨x, hx⟩ : ∃ x, x = (fileByte (sectors i.device d) i
        (offset.toNat + (512 - offset.toNat % 512))).getD 0 := ⟨_, rfl⟩
      have hlen : ((List.replicate n x).set (512 - offset.toNat % 512) (x + 1)).length = n := by
        rw [List.length_set, List.length_replicate]
      have hat : ((List.replicate n x).set (512 - offset.toNat % 512) (x + 1))[
          512 - offset.toNat % 512]? = some (x + 1) :=
        List.getElem?_set_self (by rw [List.length_replicate]; omega)
      have hne : some (x + 1) ≠ some x := fun e => absurd (Option.some.inj e) (by simp)
      by_cases hend : n ≤ offset.toNat + firstWritten
          ((List.replicate n x).set (512 - offset.toNat % 512) (x + 1)) offset.toNat
      · refine not_writesContent_cut hunused hown hwhole hoff hn hmax' hfree hlen (by omega) hend ?_
          (h _ hlen)
        rw [hat, ← hx]
        exact hne
      · refine not_writesContent_misplaced hunused hown hoff hn hmax' hfree hlen (by omega)
          (by omega) ?_ (h _ hlen)
        rw [hat, List.getElem?_set_ne (by omega), List.getElem?_replicate]
        split
        · exact hne
        · exact Option.some_ne_none _
  · intro hfits src hlen
    subst hlen
    by_cases hin : src.length ≤ 512 - offset.toNat % 512
    · obtain ⟨g, j, hg, hs, _⟩ := writeBytes_inside (T := T) hown rfl hwhole src offset.toNat hoff
        (by omega) (Nat.le_trans (Nat.le_add_right _ _) hrest) hin
      exact writesContent_of_spliced hwhole hoff (write_gives hunused hoff hmax' hg) (hs hfits)
    · obtain ⟨hzero, hlong⟩ : offset.toNat = 0 ∧ 512 < src.length := by omega
      rw [hzero] at hrest
      obtain ⟨g, j, hg, hs⟩ := writeBytes_fromStart (T := T) hown rfl hwhole src (by omega)
        hrest hlong
      rw [← hzero] at hg hs
      exact writesContent_of_spliced hwhole hoff (write_gives hunused hoff hmax' hg) hs

end Writing

/-- A disk of zeros: its freelist is empty. -/
def blankDisk : MemDisk := ⟨fun _ _ => Sector.zero⟩

theorem twoBlockInode_blocks {n : Nat} {b : UInt32} (hb : twoBlockInode.blocks[n]? = some b)
    (h0 : b ≠ 0) : (n = 0 ∧ b = 300) ∨ (n = 1 ∧ b = 301) := by
  by_cases hn : n < 64
  · have hk : ∀ k : Fin 64, twoBlockInode.blocks[k.val]? = some 0 ∨
        (k.val = 0 ∧ twoBlockInode.blocks[k.val]? = some 300) ∨
        (k.val = 1 ∧ twoBlockInode.blocks[k.val]? = some 301) := by decide
    rcases hk ⟨n, hn⟩ with h | ⟨e, h⟩ | ⟨e, h⟩
    · exact absurd (Option.some.inj (hb.symm.trans h)) h0
    · exact Or.inl ⟨e, Option.some.inj (hb.symm.trans h)⟩
    · exact Or.inr ⟨e, Option.some.inj (hb.symm.trans h)⟩
  · rw [Vector.getElem?_eq_none (show 64 ≤ n by omega)] at hb
    cases hb

theorem blankDisk_own : Own (sectors 1 blankDisk) twoBlockInode [] where
  freelist := freelist_nil_iff.mpr (by decide +kernel)
  free_data b hb := absurd hb List.not_mem_nil
  data n b hb h0 := by
    rcases twoBlockInode_blocks hb h0 with ⟨_, e⟩ | ⟨_, e⟩
    · rw [e]
      exact (by decide : 257 ≤ (300 : UInt32).toNat)
    · rw [e]
      exact (by decide : 257 ≤ (301 : UInt32).toNat)
  used n b _ _ := List.not_mem_nil
  once n m b hn hm h0 := by
    rcases twoBlockInode_blocks hn h0 with ⟨e1, h1⟩ | ⟨e1, h1⟩ <;>
      rcases twoBlockInode_blocks hm h0 with ⟨e2, h2⟩ | ⟨e2, h2⟩
    · rw [e1, e2]
    · exact absurd (h1.symm.trans h2) (by decide)
    · exact absurd (h1.symm.trans h2) (by decide)
    · rw [e1, e2]

/-- All of the file, written from its start. -/
theorem write_content_twoBlocks :
    WritesContent blankDisk twoBlockInode 0 (List.replicate 600 1) :=
  (write_content_iff blankDisk twoBlockInode 0 600 [] (Or.inl rfl) blankDisk_own
    twoBlockInode_whole (by decide) (by decide) (by decide) (by decide +kernel)).mpr
    (Or.inr (by decide)) _ List.length_replicate

/-- **Overwriting bytes of a file makes it longer.** Ten bytes at offset 100 of a file of 600
    bytes: the first block reaches to 612, which is past the end, and the size becomes 610. -/
theorem overwrite_grows_file :
    (write (List.replicate 10 1) 100 (blankDisk, twoBlockInode)).1 = .ok 10 ∧
    (write (List.replicate 10 1) 100 (blankDisk, twoBlockInode)).2.2.size = 610 ∧
    ¬ WritesContent blankDisk twoBlockInode 100 (List.replicate 10 1) := by
  have hsize : (write (List.replicate 10 1) 100 (blankDisk, twoBlockInode)).2.2.size = 610 := by
    decide +kernel
  refine ⟨by decide +kernel, hsize, ?_⟩
  intro h
  have hgrown := h.2.1
  rw [hsize] at hgrown
  exact absurd hgrown (by decide)

end Sprocket.SimpleFs
