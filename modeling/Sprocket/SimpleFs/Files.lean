/-
  File:      Sprocket/SimpleFs/Files.lean
  Subject:   THE BYTES OF A FILE: what `write` stores and what `read` delivers.

  A file is seen through `fileByte f i`: byte `p` is byte `p % 512` of block `p / 512`. Writing is
  a sequence of block writes, each of which finds or allocates its block (`bmapOrAlloc_placed`)
  and replaces its contents (`Placed.write`); a block write changes the bytes of that block and
  no other byte of the file (`Wrote`).

  * `writeBytes_first` -- `write` ends with its first block whenever the offset behind that block
    has reached the LENGTH of the source: the bytes that do not fit into the first block are then
    not stored;
  * `writeBytes_rest` -- otherwise the chunk loop writes the source from the index the offset has
    reached, every chunk from the start of a block (`Shifted`);
  * `writeBytes_start` -- a write at offset 0 stores every byte;
  * `readBytes_first`, `readBytes_rest`, `readBytes_start` -- the same three cases of `read`.
-/
import Sprocket.SimpleFs.Ownership

namespace Sprocket.SimpleFs

open Bytes Prog

/-! ## 1. One block of a file -/

/-- Index `k` of the file is mapped. -/
def Inode.Maps (i : Inode) (k : Nat) : Prop := ∃ b, i.blocks[k]? = some b ∧ b ≠ 0

theorem InodeType.ne_unused {t : InodeType} (h : t = .file ∨ t = .directory) : t ≠ .unused := by
  rcases h with rfl | rfl <;> decide

theorem Grew.maps {f g : Sectors} {i j : Inode} {st st' : List UInt32} {k : Nat}
    (h : Grew f i st g j st') (hm : i.Maps k) : j.Maps k := by
  obtain ⟨b, hb, h0⟩ := hm
  exact ⟨b, h.kept k b hb h0, h0⟩

/-- What block `k` of the file holds; a block that is not mapped is zeroed when it is. -/
def blockOf (f : Sectors) (i : Inode) (k : Nat) : Sector :=
  match i.blocks[k]? with
  | some b => if b = 0 then Sector.zero else f b
  | none => Sector.zero

/-- The number of blocks mapping index `k` takes off the freelist. -/
def toMap (i : Inode) (k : Nat) : Nat := if i.blocks[k]? = some 0 then 1 else 0

/-- The sector with `src` written from `offset % 512` on, as far as it fits. -/
def Sector.patch (x : Sector) (offset : Nat) (src : List UInt8) : Sector :=
  ⟨splice x.val (offset % 512) (src.take (512 - offset % 512)), by
    have hx := x.property
    rw [length_splice]
    · exact hx
    · rw [List.length_take]
      omega⟩

theorem Sector.getElem?_patch (x : Sector) (offset : Nat) (src : List UInt8) {t : Nat}
    (ht : t < 512) :
    (x.patch offset src).val[t]? =
      if offset % 512 ≤ t ∧ t < offset % 512 + src.length then src[t - offset % 512]?
      else x.val[t]? := by
  have hx := x.property
  show (splice x.val (offset % 512) (src.take (512 - offset % 512)))[t]? = _
  rw [getElem?_splice (by omega), List.length_take, List.getElem?_take]
  by_cases h1 : t < offset % 512
  · rw [if_pos h1, if_neg (by omega)]
  · rw [if_neg h1, if_pos (show t - offset % 512 < 512 - offset % 512 by omega)]
    by_cases h2 : t < offset % 512 + src.length
    · rw [if_pos (by omega), if_pos ⟨by omega, h2⟩]
    · rw [if_neg (by omega), if_neg (by omega)]

/-- At offset 0 of a block a patch is a plain disk write. -/
theorem Sector.overwrite_eq_patch (x : Sector) {offset : Nat} (src : List UInt8)
    (h : offset % 512 = 0) : x.overwrite (src.take 512) = x.patch offset src := by
  have hx := x.property
  apply Subtype.ext
  refine List.ext_getElem? fun t => ?_
  by_cases ht : t < 512
  · rw [Sector.getElem?_overwrite x (by simp), Sector.getElem?_patch x offset src ht, h,
      List.length_take, List.getElem?_take, if_pos ht]
    by_cases h2 : t < src.length
    · rw [if_pos (by omega), if_pos ⟨by omega, by omega⟩, Nat.sub_zero]
    · rw [if_neg (by omega), if_neg (by omega)]
  · rw [List.getElem?_eq_none (by rw [(x.overwrite _).property]; omega),
      List.getElem?_eq_none (by rw [(x.patch _ _).property]; omega)]

/-- **Index `k` is mapped to block `b`** and nothing else about the file changed: from `f`, `i`,
    `st` to `g`, `j`, `st'`. -/
structure Placed (f : Sectors) (i : Inode) (st : List UInt32) (k : Nat) (g : Sectors) (j : Inode)
    (st' : List UInt32) (b : UInt32) : Prop where
  own : Own g j st'
  grew : Grew f i st g j st'
  size : j.size = i.size
  nonzero : b ≠ 0
  mapped : j.blocks[k]? = some b
  others : ∀ m, m ≠ k → j.blocks[m]? = i.blocks[m]?
  holds : g b = blockOf f i k
  elsewhere : ∀ p, p / 512 ≠ k → fileByte g j p = fileByte f i p
  cost : st.length = st'.length + toMap i k

/-- **Block `k` of the file was written**: it holds `x`, and nothing else about the file
    changed. -/
structure Wrote (f : Sectors) (i : Inode) (st : List UInt32) (k : Nat) (x : Sector) (g : Sectors)
    (j : Inode) (st' : List UInt32) : Prop where
  own : Own g j st'
  grew : Grew f i st g j st'
  size : j.size = i.size
  mapped : j.Maps k
  others : ∀ m, m ≠ k → j.blocks[m]? = i.blocks[m]?
  here : ∀ p, p / 512 = k → fileByte g j p = x.val[p % 512]?
  elsewhere : ∀ p, p / 512 ≠ k → fileByte g j p = fileByte f i p
  cost : st.length = st'.length + toMap i k

theorem Placed.write {f g : Sectors} {i j : Inode} {st st' : List UInt32} {k : Nat} {b : UInt32}
    (h : Placed f i st k g j st' b) (x : Sector) :
    Wrote f i st k x (Function.update g b x) j st' := by
  obtain ⟨hown, hgrew⟩ := h.own.write h.mapped h.nonzero x
  refine ⟨hown, h.grew.trans hgrew, h.size, ⟨b, h.mapped, h.nonzero⟩, h.others, ?_, ?_, h.cost⟩
  · intro p hp
    rw [fileByte_mapped (hp ▸ h.mapped) h.nonzero, Function.update_self]
  · intro p hp
    rw [← h.elsewhere p hp]
    refine fileByte_congr rfl fun c hc hc0 => Function.update_of_ne ?_ _ _
    rintro rfl
    exact hp (h.own.once _ _ c hc h.mapped hc0)

section Writing

variable {T : Type} [Disk T] [FaultFree T] {dev : UInt32} {f : Sectors} {i : Inode}
  {st : List UInt32} {k : Nat}

/-- **`bmap_or_alloc` finds or allocates the block**, if the freelist has one where it is
    needed. -/
theorem bmapOrAlloc_placed (ho : Own f i st) (hdev : i.device = dev) (hk : k < 64)
    (hfree : toMap i k ≤ st.length) :
    ∃ g j st' b, Gives (fileView (T := T) dev) (bmapOrAlloc k) (f, i) (.ok b) (g, j) ∧
      Placed f i st k g j st' b := by
  have hb : i.blocks[k]? = some (i.blocks.get ⟨k, hk⟩) := Vector.getElem?_eq_getElem hk
  revert hb
  generalize i.blocks.get ⟨k, hk⟩ = b
  intro hb
  by_cases h0 : b = 0
  · subst h0
    have hone : toMap i k = 1 := if_pos hb
    cases st with
    | nil =>
      rw [hone] at hfree
      exact absurd hfree (by decide)
    | cons b st' =>
      obtain ⟨g, hgives, hst, hz, hfr⟩ := bmapOrAlloc_alloc (T := T) hb hdev ho.freelist
      obtain ⟨hown, hgrew⟩ := ho.alloc hb hst hfr
      refine ⟨g, i.mapBlock k b, st', b, hgives, hown, hgrew, rfl,
        ho.freelist.nonzero b List.mem_cons_self, mapBlock_self i hk b,
        fun m hm => mapBlock_other i hm.symm b, ?_, ?_, by rw [hone]; rfl⟩
      · rw [hz, blockOf, hb]
        rfl
      · intro p hp
        refine fileByte_congr (mapBlock_other i (Ne.symm hp) b) fun c hc hc0 => ?_
        exact hfr.others c hc0 (ho.used _ c hc hc0)
  · have hzero : toMap i k = 0 := if_neg fun e => h0 (Option.some.inj (hb.symm.trans e))
    refine ⟨f, i, st, b, bmapOrAlloc_mapped hb h0, ho, Grew.refl f i st, rfl, h0, hb,
      fun _ _ => rfl, ?_, fun _ _ => rfl, by rw [hzero]; rfl⟩
    rw [blockOf, hb]
    exact (if_neg h0).symm

/-- The number of bytes the disk reports for the first block. -/
def firstWritten (src : List UInt8) (offset : Nat) : Nat :=
  if offset % 512 ≠ 0 then 512 else min 512 src.length

/-- The first block of a write. -/
theorem writeFirst_gives (src : List UInt8) (offset : Nat) (b : UInt32) (hdev : i.device = dev) :
    Gives (fileView (T := T) dev) (writeFirst src offset b) (f, i)
      (.ok (firstWritten src offset)) (Function.update f b ((f b).patch offset src), i) := by
  unfold writeFirst firstWritten
  refine gives_theInode.then ?_
  rw [hdev]
  by_cases h : offset % 512 ≠ 0
  · rw [if_pos h, if_pos h]
    refine diskRead_zero.onFst.then ?_
    exact (diskWrite_block ((f b).patch offset src).property).onFst
  · rw [if_neg h, if_neg h]
    have h0 : offset % 512 = 0 := not_not.mp h
    have htake : src.take (min blockSize src.length) = src.take 512 := by
      rw [List.take_eq_take_iff]
      simp only [blockSize]
      omega
    rw [htake, ← List.length_take, ← Sector.overwrite_eq_patch (f b) src h0]
    exact (diskWrite_gives (by simp)).onFst

theorem firstWritten_le (src : List UInt8) (offset : Nat) : firstWritten src offset ≤ 512 := by
  unfold firstWritten
  split <;> omega

/-- A write that ends with its first block, on any disk. The code stops as soon as the offset behind
    the first block has reached the length of the source, and then adds that length to the size if
    the offset is past the end. -/
theorem writeBytes_ends {S υ : Type} [Disk S] {view : S → υ} {v v' w : υ} {j : Inode} {b : UInt32}
    {src : List UInt8} {offset : Nat} (hoff : offset < 32768) (hsrc : src.length < 2 ^ 32)
    (hsize : j.size.toNat + src.length < 2 ^ 32)
    (hlen : src.length ≤ offset + firstWritten src offset)
    (hb : Gives (onView view) (bmapOrAlloc (offset / 512)) (v, i) (.ok b) (v', j))
    (hw : Gives (onView view) (writeFirst src offset b) (v', j) (.ok (firstWritten src offset))
      (w, j)) :
    Gives (onView view) (writeBytes src offset) (v, i) (.ok src.length)
      (w, if j.size.toNat < offset + firstWritten src offset
        then { j with size := UInt32.ofNat (j.size.toNat + src.length) } else j) := by
  have hn := firstWritten_le src offset
  unfold writeBytes
  refine hb.then (hw.then ?_)
  rw [Nat.mod_eq_of_lt (show firstWritten src offset < 2 ^ 32 by omega)]
  refine (gives_checkedAdd (by omega)).then (gives_theInode.then ?_)
  rw [Nat.mod_eq_of_lt hsrc, if_pos hlen]
  by_cases hs : j.size.toNat < offset + firstWritten src offset
  · rw [if_pos hs, if_pos hs]
    refine (gives_checkedAdd hsize).then ?_
    exact (gives_setTheInode _).then (gives_pure _)
  · rw [if_neg hs, if_neg hs]
    exact gives_pure _

/-- **A write that ends with its first block.** -/
theorem writeBytes_first (ho : Own f i st) (hdev : i.device = dev) (src : List UInt8) (offset : Nat)
    (hoff : offset < 32768) (hsrc : src.length < 2 ^ 32)
    (hsize : i.size.toNat + src.length < 2 ^ 32) (hfree : toMap i (offset / 512) ≤ st.length)
    (hlen : src.length ≤ offset + firstWritten src offset) :
    ∃ g j st', Gives (fileView (T := T) dev) (writeBytes src offset) (f, i) (.ok src.length)
        (g, if i.size.toNat < offset + firstWritten src offset
          then { j with size := UInt32.ofNat (i.size.toNat + src.length) } else j) ∧
      Wrote f i st (offset / 512) ((blockOf f i (offset / 512)).patch offset src) g j st' := by
  obtain ⟨g, j, st', b, hb, hp⟩ := bmapOrAlloc_placed (T := T) ho hdev (k := offset / 512)
    (by omega) hfree
  have hw := hp.write ((g b).patch offset src)
  have hjdev : j.device = dev := hp.grew.device.trans hdev
  rw [hp.holds] at hw
  refine ⟨_, j, st', ?_, hw⟩
  rw [← hp.holds, ← hp.size]
  exact writeBytes_ends hoff hsrc (by rw [hp.size]; exact hsize) hlen hb
    (writeFirst_gives src offset b hjdev)

/-! ## 2. A write from the start of the file -/

/-- The number of blocks the chunks from `lo` on take off the freelist. -/
def needed (i : Inode) (lo hi : Nat) : Nat :=
  ((chunkBounds lo hi).map fun p => toMap i (p.1 / 512)).sum

theorem chunkBounds_lower {lo hi : Nat} : ∀ p ∈ chunkBounds lo hi, lo ≤ p.1 := by
  intro p hp
  fun_induction chunkBounds lo hi with
  | case1 lo h ih =>
    rcases List.mem_cons.mp hp with rfl | hp
    · exact Nat.le_refl lo
    · exact Nat.le_trans (Nat.le_add_right lo _) (ih hp)
  | case2 lo h => exact absurd hp List.not_mem_nil

/-- Only the indices from `lo / 512` on count. -/
theorem needed_congr {i j : Inode} {lo hi : Nat}
    (h : ∀ m, lo / 512 ≤ m → j.blocks[m]? = i.blocks[m]?) : needed j lo hi = needed i lo hi := by
  unfold needed
  refine congrArg List.sum (List.map_congr_left fun p hp => ?_)
  have hlo := Nat.div_le_div_right (c := 512) (chunkBounds_lower p hp)
  rw [toMap, toMap, h _ hlo]

theorem needed_cons (i : Inode) {lo hi : Nat} (h : lo < hi) :
    needed i lo hi = toMap i (lo / 512) + needed i (lo + 512) hi := by
  rw [needed, chunkBounds, if_pos h]
  rfl

theorem needed_nil (i : Inode) {lo hi : Nat} (h : hi ≤ lo) : needed i lo hi = 0 := by
  rw [needed, chunkBounds, if_neg (by omega)]
  rfl

/-- More chunks from the same block on need no fewer blocks. -/
theorem needed_mono (i : Inode) {lo hi lo' hi' : Nat} (hlo : lo / 512 = lo' / 512)
    (hhi : hi - lo ≤ hi' - lo') : needed i lo hi ≤ needed i lo' hi' := by
  fun_induction chunkBounds lo hi generalizing lo' with
  | case1 lo h ih =>
    simp only [blockSize] at ih
    have hrest : needed i (lo + 512) hi ≤ needed i (lo' + 512) hi' := ih (by omega) (by omega)
    rw [needed_cons i h, needed_cons i (show lo' < hi' by omega), hlo]
    omega
  | case2 lo h =>
    rw [needed_nil i (by omega)]
    exact Nat.zero_le _

theorem toMap_le (i : Inode) (k : Nat) : toMap i k ≤ 1 := by
  unfold toMap
  split <;> omega

theorem needed_le (i : Inode) (lo hi : Nat) : needed i lo hi ≤ (hi - lo + 511) / 512 := by
  fun_induction chunkBounds lo hi with
  | case1 lo h ih =>
    have h1 := toMap_le i (lo / 512)
    rw [needed_cons i h]
    simp only [blockSize] at ih
    omega
  | case2 lo h =>
    rw [needed_nil i (by omega)]
    omega

/-- **The bytes of `src` from `lo` on are in the file, `lo % 512` places down**: the chunk loop
    writes every chunk from the start of a block. The blocks below, and what lies behind the last
    chunk in a block that was mapped, are as they were. -/
structure Shifted (f : Sectors) (i : Inode) (st : List UInt32) (lo : Nat) (src : List UInt8)
    (g : Sectors) (j : Inode) (st' : List UInt32) : Prop where
  own : Own g j st'
  grew : Grew f i st g j st'
  size : j.size = i.size
  stored : ∀ p, lo ≤ p → p < src.length → fileByte g j (p - lo % 512) = src[p]?
  below : ∀ p, p < lo - lo % 512 → fileByte g j p = fileByte f i p
  behind : ∀ p, src.length ≤ p + lo % 512 → i.Maps (p / 512) → fileByte g j p = fileByte f i p
  mapped : ∀ m, lo - lo % 512 ≤ 512 * m → 512 * m + lo % 512 < src.length → j.Maps m
  cost : st.length = st'.length + needed i lo src.length

theorem Shifted.nothing (ho : Own f i st) {lo : Nat} {src : List UInt8} (h : src.length ≤ lo) :
    Shifted f i st lo src f i st where
  own := ho
  grew := Grew.refl f i st
  size := rfl
  stored _ h1 h2 := absurd h2 (by omega)
  below _ _ := rfl
  behind _ _ _ := rfl
  mapped _ h1 h2 := absurd h2 (by omega)
  cost := by rw [needed_nil i h]; rfl

/-- The chunk of the source from `lo` on. -/
def chunkAt (src : List UInt8) (lo : Nat) : List UInt8 :=
  slice src lo (min (lo + 512) src.length - lo)

theorem length_chunkAt (src : List UInt8) (lo : Nat) :
    (chunkAt src lo).length = min (lo + 512) src.length - lo := by
  rw [chunkAt, length_slice]
  omega

theorem Sector.getElem?_overwrite_chunkAt (x : Sector) (src : List UInt8) (lo : Nat) {t : Nat}
    (ht : t < 512) : (x.overwrite (chunkAt src lo)).val[t]? =
      if lo + t < src.length then src[lo + t]? else x.val[t]? := by
  have hlen := length_chunkAt src lo
  rw [Sector.getElem?_overwrite x (by omega), hlen]
  by_cases h : lo + t < src.length
  · rw [if_pos (by omega), if_pos h, chunkAt, getElem?_slice, if_pos (by omega)]
  · rw [if_neg (by omega), if_neg h]

/-- A mapped block holds the bytes of the file. -/
theorem getElem?_blockOf {p : Nat} (hm : i.Maps (p / 512)) :
    (blockOf f i (p / 512)).val[p % 512]? = fileByte f i p := by
  obtain ⟨b, hb, h0⟩ := hm
  rw [fileByte_mapped hb h0, blockOf, hb]
  simp only [if_neg h0]

/-- One chunk, and then the rest. -/
theorem Wrote.shifted {g h : Sectors} {j l : Inode} {st' st'' : List UInt32} {lo : Nat}
    {src : List UInt8} (hlt : lo < src.length)
    (hw : Wrote f i st (lo / 512) ((blockOf f i (lo / 512)).overwrite (chunkAt src lo)) g j st')
    (hr : Shifted g j st' (lo + 512) src h l st'') : Shifted f i st lo src h l st'' where
  own := hr.own
  grew := hw.grew.trans hr.grew
  size := hr.size.trans hw.size
  stored p h1 h2 := by
    by_cases hp : p < lo + 512
    · rw [hr.below _ (by omega), hw.here _ (by omega),
        Sector.getElem?_overwrite_chunkAt _ src lo (by omega), if_pos (by omega)]
      congr 1
      omega
    · have e := hr.stored p (by omega) h2
      rwa [Nat.add_mod_right] at e
  below p hp := by
    rw [hr.below p (by omega), hw.elsewhere p (by omega)]
  behind p hp hm := by
    have hp' : src.length ≤ p + (lo + 512) % 512 := by omega
    rw [hr.behind p hp' (hw.grew.maps hm)]
    by_cases hhere : p / 512 = lo / 512
    · rw [hw.here p hhere, Sector.getElem?_overwrite_chunkAt _ src lo (by omega),
        if_neg (by omega), ← hhere]
      exact getElem?_blockOf hm
    · exact hw.elsewhere p hhere
  mapped m h1 h2 := by
    by_cases hm : lo / 512 = m
    · rw [← hm]
      exact hr.grew.maps hw.mapped
    · exact hr.mapped m (by omega) (by omega)
  cost := by
    have hrest : needed j (lo + 512) src.length = needed i (lo + 512) src.length :=
      needed_congr fun m hm => hw.others m (by omega)
    rw [hw.cost, hr.cost, hrest, needed_cons i hlt]
    omega

/-- **The chunk loop stores the source from `lo` on**, every chunk from the start of a block. The
    induction follows the chunks; the offset is the start of the next chunk, or the end of the
    source. -/
theorem writeChunks_shifted {src : List UInt8} (hsrc : src.length ≤ 32768) (lo : Nat)
    (ho : Own f i st) (hdev : i.device = dev) (hfree : needed i lo src.length ≤ st.length) :
    ∃ g j st', Gives (fileView (T := T) dev)
        (writeChunks src (chunkBounds lo src.length) (min lo src.length)) (f, i)
        (.ok src.length) (g, j) ∧ Shifted f i st lo src g j st' := by
  fun_induction chunkBounds lo src.length generalizing f i st with
  | case1 lo h ih =>
    simp only [blockSize] at ih ⊢
    rw [needed_cons i h] at hfree
    rw [Nat.min_eq_left (Nat.le_of_lt h), writeChunks]
    obtain ⟨g, j, st', b, hb, hp⟩ := bmapOrAlloc_placed (T := T) ho hdev (k := lo / 512)
      (by omega) (by omega)
    have hlen := length_chunkAt src lo
    have hw := hp.write ((g b).overwrite (chunkAt src lo))
    have hneed : needed j (lo + 512) src.length = needed i (lo + 512) src.length :=
      needed_congr fun m hm => hp.others m (by omega)
    have hcost := hw.cost
    obtain ⟨g', j', st'', hg, hf⟩ := ih hw.own (hp.grew.device.trans hdev) (by omega)
    rw [hp.holds] at hw
    refine ⟨g', j', st'', ?_, hw.shifted h (by rw [← hp.holds]; exact hf)⟩
    refine hb.then (gives_theInode.then ?_)
    rw [hp.grew.device, hdev]
    refine (diskWrite_gives (show (chunkAt src lo).length ≤ 512 by omega)).onFst.then ?_
    rw [hlen, Nat.mod_eq_of_lt (by omega)]
    have e : lo + (min (lo + 512) src.length - lo) = min (lo + 512) src.length := by omega
    refine (gives_checkedAdd (by omega)).then ?_
    rw [e]
    exact hg
  | case2 lo h =>
    have hle : src.length ≤ lo := by omega
    rw [Nat.min_eq_right hle, writeChunks]
    exact ⟨f, i, st, gives_pure _, Shifted.nothing ho hle⟩

/-- The disk reports a full first block, if there is more to write. -/
theorem firstWritten_full {src : List UInt8} {offset : Nat}
    (h : offset + firstWritten src offset < src.length) : firstWritten src offset = 512 := by
  unfold firstWritten at h ⊢
  by_cases hodd : offset % 512 ≠ 0
  · exact if_pos hodd
  · rw [if_neg hodd] at h ⊢
    omega

/-- A write that goes on behind its first block, from its chunk loop on. -/
theorem writeBytes_loop {b : UInt32} {g : Sectors} {j : Inode} (hdev : j.device = dev)
    (src : List UInt8) (offset : Nat) (hsrc : src.length ≤ 32768)
    (hlen : offset + firstWritten src offset < src.length)
    (hb : Gives (fileView (T := T) dev) (bmapOrAlloc (offset / 512)) (f, i) (.ok b) (g, j))
    {Q : Outcome FsError Nat → Sectors × Inode → Prop}
    (h : Ends (fileView (T := T) dev) (do
      let stop ← writeChunks src (chunkBounds (offset + 512) src.length)
        (min (offset + 512) src.length)
      let inode ← theInode
      let _ ← if inode.size.toNat < stop then
          setTheInode fun i => { i with size := UInt32.ofNat stop }
        else pure ()
      pure src.length) (Function.update g b ((g b).patch offset src), j) Q) :
    Ends (fileView (T := T) dev) (writeBytes src offset) (f, i) Q := by
  have hfw := firstWritten_full hlen
  rw [hfw] at hlen
  rw [Nat.min_eq_left (by omega)] at h
  unfold writeBytes
  refine hb.then ((writeFirst_gives src offset b hdev).then ?_)
  rw [hfw]
  refine (gives_checkedAdd (show offset + 512 < 2 ^ 32 by omega)).then (gives_theInode.then ?_)
  rw [Nat.mod_eq_of_lt (show src.length < 2 ^ 32 by omega), if_neg (by omega)]
  exact (gives_require (by omega)).then h

/-- **A write that goes on behind its first block.** The loop takes up the source at the index
    the offset has reached, and the size becomes the length of the source if it was smaller. -/
theorem writeBytes_rest (ho : Own f i st) (hdev : i.device = dev) (src : List UInt8) (offset : Nat)
    (hoff : offset < 32768) (hsrc : src.length ≤ 32768)
    (hfree : toMap i (offset / 512) + needed i (offset + 512) src.length ≤ st.length)
    (hlen : offset + firstWritten src offset < src.length) :
    ∃ g j st' g' j' st'', Gives (fileView (T := T) dev) (writeBytes src offset) (f, i)
        (.ok src.length) (g', if i.size.toNat < src.length
          then { j' with size := UInt32.ofNat src.length } else j') ∧
      Wrote f i st (offset / 512) ((blockOf f i (offset / 512)).patch offset src) g j st' ∧
      Shifted g j st' (offset + 512) src g' j' st'' := by
  obtain ⟨g, j, st', b, hb, hp⟩ := bmapOrAlloc_placed (T := T) ho hdev (k := offset / 512)
    (by omega) (Nat.le_trans (Nat.le_add_right _ _) hfree)
  have hjdev : j.device = dev := hp.grew.device.trans hdev
  have hw := hp.write ((g b).patch offset src)
  have hneed : needed j (offset + 512) src.length = needed i (offset + 512) src.length :=
    needed_congr fun m hm => hw.others m (by omega)
  have hcost := hw.cost
  obtain ⟨g', j', st'', hc, hf⟩ := writeChunks_shifted (T := T) hsrc (offset + 512) hw.own
    hjdev (by omega)
  have hsame : j'.size = i.size := hf.size.trans hw.size
  rw [hp.holds] at hw
  refine ⟨_, j, st', g', j', st'', ?_, hw, by rw [← hp.holds]; exact hf⟩
  refine writeBytes_loop hjdev src offset hsrc hlen hb (hc.then (gives_theInode.then ?_))
  rw [hsame]
  by_cases hs : i.size.toNat < src.length
  · rw [if_pos hs, if_pos hs]
    exact (gives_setTheInode _).then (gives_pure _)
  · rw [if_neg hs, if_neg hs]
    exact gives_pure _

/-- **The file is `src`**: its size, its bytes, and the blocks that hold them (block 0 also for
    the empty file). -/
structure Stored (f : Sectors) (i : Inode) (st : List UInt32) (src : List UInt8) (g : Sectors)
    (j : Inode) (st' : List UInt32) : Prop where
  own : Own g j st'
  grew : Grew f i st g j st'
  size : j.size.toNat = src.length
  stored : ∀ p, p < src.length → fileByte g j p = src[p]?
  mapped : ∀ m, m = 0 ∨ 512 * m < src.length → j.Maps m
  cost : st.length = st'.length + (toMap i 0 + needed i 512 src.length)

/-- The first block, the remaining chunks, which are not shifted, and the new size. -/
theorem Wrote.stored {g h : Sectors} {j l : Inode} {st' st'' : List UInt32} {src : List UInt8}
    {size : UInt32} (hw : Wrote f i st 0 ((blockOf f i 0).patch 0 src) g j st')
    (hr : Shifted g j st' 512 src h l st'') (hsize : size.toNat = src.length) :
    Stored f i st src h { l with size := size } st'' := by
  obtain ⟨hown, hgrew⟩ := hr.own.resize size
  refine ⟨hown, (hw.grew.trans hr.grew).trans hgrew, hsize, ?_, ?_, ?_⟩
  · intro p hp
    show fileByte h l p = src[p]?
    by_cases h512 : p < 512
    · rw [hr.below p h512, hw.here p (by omega), Sector.getElem?_patch _ _ _ (by omega),
        if_pos (by omega)]
      congr 1
      omega
    · exact hr.stored p (by omega) hp
  · intro m hm
    by_cases h0 : m = 0
    · rw [h0]
      exact hr.grew.maps hw.mapped
    · exact hr.mapped m (by omega) (by omega)
  · have hrest : needed j 512 src.length = needed i 512 src.length :=
      needed_congr fun m hm => hw.others m (by omega)
    rw [hw.cost, hr.cost, hrest]
    omega

/-- **A write from the start of an empty file stores every byte.** -/
theorem writeBytes_start (ho : Own f i st) (hdev : i.device = dev) (hempty : i.size = 0)
    {src : List UInt8} (hsrc : src.length ≤ 32768)
    (hfree : toMap i 0 + needed i 512 src.length ≤ st.length) :
    ∃ g j st', Gives (fileView (T := T) dev) (writeBytes src 0) (f, i) (.ok src.length) (g, j) ∧
      Stored f i st src g j st' := by
  have hsize0 : i.size.toNat = 0 := by rw [hempty]; rfl
  have hfw : firstWritten src 0 = min 512 src.length := if_neg (by decide)
  have hnat : (UInt32.ofNat src.length).toNat = src.length := by
    rw [UInt32.toNat_ofNat', Nat.mod_eq_of_lt (by omega)]
  by_cases hshort : src.length ≤ 512
  · -- one block; the size of an empty write stays as it is, which is 0
    obtain ⟨g, j, st', hg, hw⟩ := writeBytes_first (T := T) ho hdev src 0
      (by decide) (by omega) (by omega) (Nat.le_trans (Nat.le_add_right _ _) hfree) (by omega)
    have hs := hw.stored (Shifted.nothing hw.own hshort) hnat
    refine ⟨g, _, st', hg, ?_⟩
    split
    · rw [hsize0, Nat.zero_add]
      exact hs
    · have hz : src.length = 0 := by omega
      have e : { j with size := UInt32.ofNat src.length } = j := by
        rw [hz, show (UInt32.ofNat 0) = j.size from (hw.size.trans hempty).symm]
      rw [e] at hs
      exact hs
  · obtain ⟨g, j, st', g', j', st'', hg, hw, hf⟩ := writeBytes_rest (T := T) ho hdev src 0
      (by decide) hsrc hfree (by omega)
    rw [if_pos (by omega)] at hg
    exact ⟨g', _, st'', hg, hw.stored hf hnat⟩

/-- `write` on a file or a directory, on any disk. Its three checks come to two: the write starts
    within the file or at its end, and does not end past the largest file. -/
theorem write_checked {S υ : Type} [Disk S] {view : S → υ} {v : υ} {src : List UInt8}
    {offset : UInt32} {Q : Outcome FsError Nat → υ × Inode → Prop} (ht : i.type_ ≠ .unused)
    (h : Ends (onView view)
      (if i.size.toNat < offset.toNat ∨ 32768 < offset.toNat + src.length % 2 ^ 32 then
        fail .writeTooLarge else writeBytes src offset.toNat) (v, i) Q) :
    Ends (onView view) (write src offset) (v, i) Q := by
  have hbody : Ends (onView view) (do
      let len := src.length % 2 ^ 32
      let offset := offset.toNat
      if (offset + len) % 2 ^ 32 < offset ∨ i.size.toNat < offset then fail .writeTooLarge
      else do
        let stop ← checkedAdd len offset
        if maxFile * blockSize < stop then fail .writeTooLarge
        else writeBytes src offset) (v, i) Q := by
    dsimp only
    have hoff := offset.toNat_lt
    have hmax : maxFile * blockSize = 32768 := rfl
    by_cases hrange : (offset.toNat + src.length % 2 ^ 32) % 2 ^ 32 < offset.toNat ∨
        i.size.toNat < offset.toNat
    · rw [if_pos hrange]
      rwa [if_pos (by omega)] at h
    · rw [if_neg hrange, hmax]
      refine (gives_checkedAdd (by omega)).then ?_
      by_cases hlarge : 32768 < src.length % 2 ^ 32 + offset.toNat
      · rw [if_pos hlarge]
        rwa [if_pos (by omega)] at h
      · rw [if_neg hlarge]
        rwa [if_neg (by omega)] at h
  unfold write
  refine gives_theInode.then ?_
  cases hty : i.type_ with
  | unused => exact absurd hty ht
  | file => exact hbody
  | directory => exact hbody

/-- `write` runs `writeBytes` when its checks pass. -/
theorem write_gives {src : List UInt8} {offset : UInt32} {o : Outcome FsError Nat}
    {w : Sectors × Inode} (ht : i.type_ ≠ .unused) (hoff : offset.toNat ≤ i.size.toNat)
    (hsrc : offset.toNat + src.length ≤ 32768)
    (h : Gives (fileView (T := T) dev) (writeBytes src offset.toNat) (f, i) o w) :
    Gives (fileView (T := T) dev) (write src offset) (f, i) o w := by
  refine write_checked ht ?_
  rw [Nat.mod_eq_of_lt (show src.length < 2 ^ 32 by omega), if_neg (by omega)]
  exact h

/-- A write past the largest file fails before anything is changed. -/
theorem write_tooLarge {src : List UInt8} {offset : UInt32} (ht : i.type_ ≠ .unused)
    (hsum : src.length + offset.toNat < 2 ^ 32) (hmax : 32768 < offset.toNat + src.length) :
    Gives (fileView (T := T) dev) (write src offset) (f, i) (.err .writeTooLarge) (f, i) := by
  refine write_checked ht ?_
  rw [Nat.mod_eq_of_lt (show src.length < 2 ^ 32 by omega), if_pos (Or.inr hmax)]
  exact gives_fail _

end Writing

/-! ## 3. Reading -/

section Reading

variable {T : Type} [Disk T] [FaultFree T] {dev : UInt32} {f : Sectors} {i : Inode}

theorem gives_bmap {σ υ : Type} {view : σ → υ} {v : υ} {k : Nat} {b : UInt32}
    (hb : i.blocks[k]? = some b) (h0 : b ≠ 0) : Gives view (bmap i k) v (.ok b) v := by
  unfold bmap
  refine (gives_ofOption hb).then ?_
  rw [if_neg h0]
  exact gives_pure b

/-- **The buffer was filled from `lo` to `hi`** with the bytes of the file from `pos` on. -/
structure Fills (f : Sectors) (i : Inode) (buf : List UInt8) (lo hi pos : Nat) (out : List UInt8) :
    Prop where
  length : out.length = buf.length
  bytes : ∀ t, out[t]? = if lo ≤ t ∧ t < hi then fileByte f i (pos + (t - lo)) else buf[t]?

theorem Fills.nothing {buf : List UInt8} {lo hi pos : Nat} (h : hi ≤ lo) :
    Fills f i buf lo hi pos buf :=
  ⟨rfl, fun t => by rw [if_neg (by omega)]⟩

/-- Bytes of one block, copied into the buffer. -/
theorem fills_splice (f : Sectors) (buf : List UInt8) (lo : Nat) {n pos : Nat} {b : UInt32}
    (hb : i.blocks[pos / 512]? = some b) (h0 : b ≠ 0) (hn : pos % 512 + n ≤ 512)
    (hlo : lo + n ≤ buf.length) :
    Fills f i buf lo (lo + n) pos (splice buf lo (slice (f b).val (pos % 512) n)) := by
  have hlen : (slice (f b).val (pos % 512) n).length = n :=
    length_slice_of_le (by rw [(f b).property]; exact hn)
  refine ⟨length_splice (by rw [hlen]; exact hlo), fun t => ?_⟩
  rw [getElem?_splice (by omega), hlen]
  by_cases h1 : t < lo
  · rw [if_pos h1, if_neg (by omega)]
  · by_cases h2 : t < lo + n
    · have hdiv : (pos + (t - lo)) / 512 = pos / 512 := by omega
      have hmod : (pos + (t - lo)) % 512 = pos % 512 + (t - lo) := by omega
      rw [if_neg h1, if_pos h2, if_pos ⟨by omega, h2⟩, getElem?_slice, if_pos (by omega),
        fileByte_mapped (hdiv ▸ hb) h0, hmod]
    · rw [if_neg h1, if_neg h2, if_neg (by omega)]

/-- Two neighbouring parts of the buffer. -/
theorem Fills.append {buf mid out : List UInt8} {lo m hi pos : Nat} (hlo : lo ≤ m)
    (hhi : m ≤ hi) (h1 : Fills f i buf lo m pos mid)
    (h2 : Fills f i mid m hi (pos + (m - lo)) out) : Fills f i buf lo hi pos out := by
  refine ⟨h2.length.trans h1.length, fun t => ?_⟩
  rw [h2.bytes]
  by_cases ha : m ≤ t ∧ t < hi
  · have e : pos + (m - lo) + (t - m) = pos + (t - lo) := by omega
    rw [if_pos ha, if_pos (by omega), e]
  · rw [if_neg ha, h1.bytes]
    by_cases hb : lo ≤ t ∧ t < m
    · rw [if_pos hb, if_pos (by omega)]
    · rw [if_neg hb, if_neg (by omega)]

/-- The number of bytes the first block of a read delivers. -/
def firstRead (offset len : Nat) : Nat := min len (512 - offset % 512)

/-- The buffer a caller gave, changed by `g`. -/
theorem gives_setBuffer {S υ ε : Type} {view : S → υ} {v : υ} {buf : List UInt8}
    (g : List UInt8 → List UInt8) :
    Gives (onView view) (modify fun s => (s.1, g s.2) : Prog (S × List UInt8) ε Unit) (v, buf)
      (.ok ()) (v, g buf) := by
  refine gives_modify_view fun s hs => ?_
  obtain ⟨rfl, rfl⟩ := Prod.mk.inj hs
  rfl

/-- A read after its first block, on any disk. -/
theorem readBytes_from {S υ : Type} [Disk S] {view : S → υ} {v w : υ} {offset len : Nat}
    {b : UInt32} {tmp buf : List UInt8} {Q : Outcome FsError Nat → υ × List UInt8 → Prop}
    (hb : i.blocks[offset / 512]? = some b) (h0 : b ≠ 0) (hoff : offset ≤ 32768)
    (hread : Gives view (diskRead zeroBlock i.device b) v (.ok tmp) w) (htmp : tmp.length = 512)
    (h : Ends (onView view) (if len ≤ offset + (512 - offset % 512) then pure len
      else do
        require (blockSize + (offset + (512 - offset % 512)) % blockSize ≤ len)
        let _ ← readChunks i
          (chunkBounds (blockSize + (offset + (512 - offset % 512)) % blockSize) len)
          (offset + (512 - offset % 512))
        pure len) (w, splice buf 0 ((tmp.drop (offset % 512)).take len)) Q) :
    Ends (onView view) (readBytes i offset len) (v, buf) Q := by
  unfold readBytes
  refine (gives_bmap hb h0).then (hread.onFst.then ?_)
  dsimp only
  refine Gives.then (gives_setBuffer fun c => splice c 0 ((tmp.drop (offset % 512)).take len)) ?_
  rw [List.length_drop, htmp]
  exact (gives_checkedAdd (by simp only [blockSize]; omega)).then h

/-- Up to the test that may end it, a read fills the buffer from its first block. -/
theorem readBytes_head (f : Sectors) (offset len : Nat) {buf : List UInt8} (hdev : i.device = dev)
    (hm : i.Maps (offset / 512)) (hoff : offset ≤ 32768) (hlen : len ≤ buf.length) :
    ∃ mid, Fills f i buf 0 (firstRead offset len) offset mid ∧
      ∀ o w, Gives (bufView (T := T) dev) (if len ≤ offset + (512 - offset % 512) then pure len
        else do
          require (blockSize + (offset + (512 - offset % 512)) % blockSize ≤ len)
          let _ ← readChunks i
            (chunkBounds (blockSize + (offset + (512 - offset % 512)) % blockSize)
            len) (offset + (512 - offset % 512))
          pure len) (f, mid) o w →
        Gives (bufView (T := T) dev) (readBytes i offset len) (f, buf) o w := by
  obtain ⟨b, hb, h0⟩ := hm
  have htake : ((f b).val.drop (offset % 512)).take len =
      slice (f b).val (offset % 512) (firstRead offset len) := by
    rw [slice, firstRead, List.take_eq_take_iff, List.length_drop, (f b).property]
    omega
  have hfill := fills_splice f buf 0 (n := firstRead offset len) hb h0
    (by unfold firstRead; omega) (by unfold firstRead; omega)
  rw [Nat.zero_add, ← htake] at hfill
  have hread : Gives (sectors (T := T) dev) (diskRead zeroBlock i.device b) f (.ok (f b).val)
      f := by
    rw [hdev]
    exact diskRead_zero
  exact ⟨_, hfill, fun o w h => readBytes_from hb h0 hoff hread (f b).property h⟩

/-- **A read that ends with its first block**: the bytes asked for beyond it are not
    delivered. -/
theorem readBytes_first (f : Sectors) (offset len : Nat) {buf : List UInt8} (hdev : i.device = dev)
    (hm : i.Maps (offset / 512)) (hoff : offset ≤ 32768) (hlen : len ≤ buf.length)
    (hend : len ≤ offset + (512 - offset % 512)) :
    ∃ out, Gives (bufView (T := T) dev) (readBytes i offset len) (f, buf) (.ok len) (f, out) ∧
      Fills f i buf 0 (firstRead offset len) offset out := by
  obtain ⟨mid, hfill, h⟩ := readBytes_head (T := T) f offset len hdev hm hoff hlen
  refine ⟨mid, h _ _ ?_, hfill⟩
  rw [if_pos hend]
  exact gives_pure len

/-- Reading one chunk in place. -/
theorem readChunk_gives {buf : List UInt8} {lo n : Nat} {b : UInt32} (hn : n ≤ 512)
    (hlo : lo + n ≤ buf.length) :
    Gives (bufView (T := T) dev) (onPart (fun c => slice c lo n) (fun c x => splice c lo x)
      (mapErr FsError.diskFault (Disk.read dev b))) (f, buf) (.ok ())
      (f, splice buf lo (slice (f b).val 0 n)) := by
  refine ends_onPart (ends_mapErr ?_)
  rintro ⟨d, c⟩ hd
  obtain ⟨rfl, rfl⟩ := Prod.mk.inj hd
  have hlen : (slice buf lo n).length = n := length_slice_of_le hlo
  obtain ⟨h1, h2, h3⟩ := FaultFree.read_spec d (slice buf lo n) dev b (by omega)
  rw [hlen] at h2
  rw [h1]
  exact ⟨rfl, Prod.ext (congrFun h3 dev) (congrArg (splice buf lo) h2)⟩

/-- **The chunk loop fills the buffer from `lo` on with the file from `pos` on**, where `pos` is
    the start of a block. -/
theorem readChunks_gives (f : Sectors) (lo pos : Nat) {len : Nat} {buf : List UInt8}
    (hdev : i.device = dev) (hpos : lo < len → pos % 512 = 0) (hlen : len ≤ buf.length)
    (hmax : pos + (len - lo) ≤ 32768)
    (hm : ∀ m, pos ≤ 512 * m → 512 * m < pos + (len - lo) → i.Maps m) :
    ∃ out, Gives (bufView (T := T) dev) (readChunks i (chunkBounds lo len) pos) (f, buf)
        (.ok ()) (f, out) ∧ Fills f i buf lo len pos out := by
  fun_induction chunkBounds lo len generalizing buf pos with
  | case1 lo h ih =>
    simp only [blockSize] at ih ⊢
    have hpos0 := hpos h
    obtain ⟨b, hb, h0⟩ := hm (pos / 512) (by omega) (by omega)
    have hfill := fills_splice f buf lo (n := min (lo + 512) len - lo) hb h0 (by omega) (by omega)
    have e : lo + (min (lo + 512) len - lo) = min (lo + 512) len := by omega
    rw [hpos0, e] at hfill
    obtain ⟨out, hout, hrest⟩ := ih (pos + (min (lo + 512) len - lo)) (by omega)
      (by rw [hfill.length]; exact hlen) (by omega) fun m h1 h2 => hm m (by omega) (by omega)
    refine ⟨out, ?_, ?_⟩
    · rw [readChunks]
      refine (gives_bmap hb h0).then ?_
      rw [hdev]
      refine (readChunk_gives (by omega) (by omega)).then ?_
      exact (gives_checkedAdd (by omega)).then hout
    · by_cases hlast : lo + 512 ≤ len
      · rw [Nat.min_eq_left hlast] at hfill hrest
        exact hfill.append (by omega) hlast hrest
      · rw [Nat.min_eq_right (by omega)] at hfill hrest
        have hsame : out = splice buf lo (slice (f b).val 0 (len - lo)) :=
          List.ext_getElem? fun t => by rw [hrest.bytes t, if_neg (by omega)]
        rw [hsame]
        exact hfill
  | case2 lo h =>
    rw [readChunks]
    exact ⟨buf, gives_pure _, Fills.nothing (by omega)⟩

/-- **A read that goes on behind its first block**: the loop fills the buffer from index 512 on,
    wherever the first block ended. -/
theorem readBytes_rest (f : Sectors) (offset len : Nat) {buf : List UInt8} (hdev : i.device = dev)
    (hm : ∀ m, m = offset / 512 ∨ 512 * m < offset + len → i.Maps m) (hmax : offset + len ≤ 32768)
    (hlen : len ≤ buf.length) (hmore : offset + (512 - offset % 512) < len) :
    ∃ mid out, Gives (bufView (T := T) dev) (readBytes i offset len) (f, buf) (.ok len) (f, out) ∧
      Fills f i buf 0 (512 - offset % 512) offset mid ∧
      Fills f i mid 512 len (offset + (512 - offset % 512)) out := by
  obtain ⟨mid, hfill, h⟩ := readBytes_head (T := T) f offset len hdev
    (hm _ (Or.inl rfl)) (by omega) hlen
  rw [show firstRead offset len = 512 - offset % 512 by unfold firstRead; omega] at hfill
  obtain ⟨out, hout, hrest⟩ := readChunks_gives (T := T) f 512 (offset + (512 - offset % 512))
    hdev (fun _ => by omega) (hfill.length ▸ hlen) (by omega)
    fun m h1 h2 => hm m (Or.inr (by omega))
  refine ⟨mid, out, h _ _ ?_, hfill, hrest⟩
  have hzero : blockSize + (offset + (512 - offset % 512)) % blockSize = 512 := by
    simp only [blockSize]
    omega
  rw [if_neg (by omega), hzero]
  exact (gives_require (by omega)).then (hout.then (gives_pure len))

/-- **A read from the start of the file delivers every byte.** -/
theorem readBytes_start (f : Sectors) {len : Nat} {buf : List UInt8} (hdev : i.device = dev)
    (hlen : len ≤ buf.length) (hmax : len ≤ 32768)
    (hm : ∀ m, m = 0 ∨ 512 * m < len → i.Maps m) :
    ∃ out, Gives (bufView (T := T) dev) (readBytes i 0 len) (f, buf) (.ok len) (f, out) ∧
      Fills f i buf 0 len 0 out := by
  by_cases hshort : len ≤ 512
  · obtain ⟨out, hout, hfill⟩ := readBytes_first (T := T) f 0 len hdev
      (hm 0 (Or.inl rfl)) (by decide) hlen hshort
    rw [show firstRead 0 len = len by unfold firstRead; omega] at hfill
    exact ⟨out, hout, hfill⟩
  · obtain ⟨mid, out, hout, hfill, hrest⟩ := readBytes_rest (T := T) f 0 len hdev
      (fun m h => hm m (by omega)) (by omega) hlen (by omega)
    exact ⟨out, hout, hfill.append (by decide) (by omega) hrest⟩

/-- `read` on a file or a directory, on any disk. The length of the buffer is cut to 32 bits before
    it is looked at. -/
theorem read_checked {S υ : Type} [Disk S] {view : S → υ} {v : υ} {buf : List UInt8}
    {offset : UInt32} {Q : Outcome FsError Nat → υ × List UInt8 → Prop} (ht : i.type_ ≠ .unused)
    (h : Ends (onView view)
      (if i.size.toNat < offset.toNat ∨ 2 ^ 32 ≤ offset.toNat + buf.length % 2 ^ 32 then
        fail .readTooLarge
      else readBytes i offset.toNat (min (buf.length % 2 ^ 32) (i.size.toNat - offset.toNat)))
      (v, buf) Q) :
    Ends (onView view) (read i offset) (v, buf) Q := by
  have hbuf : Gives (onView view) theBuffer (v, buf) (.ok buf) (v, buf) := by
    rintro ⟨d, c⟩ hd
    obtain ⟨rfl, rfl⟩ := Prod.mk.inj hd
    exact ⟨rfl, rfl⟩
  have hlen : (if i.size.toNat < offset.toNat + buf.length % 2 ^ 32
      then i.size.toNat - offset.toNat else buf.length % 2 ^ 32) =
        min (buf.length % 2 ^ 32) (i.size.toNat - offset.toNat) := by
    split <;> omega
  have hbody : Ends (onView view) (do
      let dst ← theBuffer
      let len := dst.length % 2 ^ 32
      let offset := offset.toNat
      let size := i.size.toNat
      if size < offset ∨ (offset + len) % 2 ^ 32 < offset then fail .readTooLarge
      else do
        let stop ← checkedAdd offset len
        let len := if size < stop then size - offset else len
        require (len ≤ dst.length)
        readBytes i offset len) (v, buf) Q := by
    refine hbuf.then ?_
    dsimp only
    have hstart := offset.toNat_lt
    by_cases hsum : i.size.toNat < offset.toNat ∨ 2 ^ 32 ≤ offset.toNat + buf.length % 2 ^ 32
    · rw [if_pos hsum] at h
      rw [if_pos (by omega)]
      exact h
    · rw [if_neg hsum] at h
      rw [if_neg (by omega)]
      refine (gives_checkedAdd (by omega)).then ?_
      rw [hlen]
      exact (gives_require (by omega)).then h
  unfold read
  cases hty : i.type_ with
  | unused => exact absurd hty ht
  | file => exact hbody
  | directory => exact hbody

/-- `read` runs `readBytes` when its checks pass, up to the end of the file. -/
theorem read_gives {buf : List UInt8} {offset : UInt32} {o : Outcome FsError Nat}
    {w : Sectors × List UInt8} (ht : i.type_ ≠ .unused) (hoff : offset.toNat ≤ i.size.toNat)
    (hsum : offset.toNat + buf.length < 2 ^ 32)
    (h : Gives (bufView (T := T) dev)
      (readBytes i offset.toNat (min buf.length (i.size.toNat - offset.toNat))) (f, buf) o w) :
    Gives (bufView (T := T) dev) (read i offset) (f, buf) o w := by
  refine read_checked ht ?_
  rw [Nat.mod_eq_of_lt (show buf.length < 2 ^ 32 by omega), if_neg (by omega)]
  exact h

end Reading

end Sprocket.SimpleFs
