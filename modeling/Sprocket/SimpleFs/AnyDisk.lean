/-
  File:      Sprocket/SimpleFs/AnyDisk.lean
  Subject:   `read` AND `write` ON ANY DISK that reports what it wrote.

  A disk may fail any call, return anything for a sector, and have a freelist that makes no sense:
  as long as its calls end and a write that succeeds reports the bytes it was given (`Reporting`),
  the checks of `read` and `write` see the numbers they expect, and what they do to the inode
  depends on nothing else.

  * `readBytes_safe`, `writeBytes_safe` -- neither panics behind the checks of `read` and `write`,
    if the offset is in one of the 64 blocks;
  * `read_write_panic_iff` -- the checks let one other offset through: the end of a file of the
    largest size, where the index is past the block array;
  * `write_err` -- a write that fails changes no size and unmaps no block;
  * `write_keeps_inode_iff` -- the writes after which the size is covered by mapped blocks again
    (`Covered`), and what holds along a run of such writes.
-/
import Sprocket.Lib.Safe
import Sprocket.Lib.Trace
import Sprocket.SimpleFs.Faults
import Sprocket.SimpleFs.Offsets

namespace Sprocket.SimpleFs

open Bytes Prog

/-! ## 1. Disks -/

/-- Every call of the disk ends, and a write that succeeds reports the length of its buffer. -/
class Reporting (T : Type) [Disk T] : Prop where
  read_ends (d : T) (buf : List UInt8) (dev s : UInt32) : buf.length ≤ 512 →
    (Disk.read dev s (d, buf)).1 ≠ .panic
  write_ends (d : T) (buf : List UInt8) (dev s : UInt32) : buf.length ≤ 512 →
    (Disk.write buf dev s d).1 ≠ .panic
  write_reports (d : T) (buf : List UInt8) (dev s : UInt32) (n : Nat) : buf.length ≤ 512 →
    (Disk.write buf dev s d).1 = .ok n → n = buf.length

instance {T : Type} [Disk T] [FaultFree T] : Reporting T where
  read_ends d buf dev s h := by
    rw [(FaultFree.read_spec d buf dev s h).1]
    nofun
  write_ends d buf dev s h := by
    rw [(FaultFree.write_spec d buf dev s h).1]
    nofun
  write_reports d buf dev s n h hn := by
    rw [(FaultFree.write_spec d buf dev s h).1] at hn
    exact (Outcome.ok.inj hn).symm

/-- So does a disk one of whose calls fails. -/
instance {T : Type} [Disk T] [Reporting T] : Reporting (Faulty T) where
  read_ends x buf dev s h := by
    dsimp only [Disk.read]
    split
    · nofun
    · exact Reporting.read_ends x.disk buf dev s h
  write_ends x buf dev s h := by
    dsimp only [Disk.write]
    split
    · nofun
    · exact Reporting.write_ends x.disk buf dev s h
  write_reports x buf dev s n h := by
    dsimp only [Disk.write]
    split
    · nofun
    · exact Reporting.write_reports x.disk buf dev s n h

section Code

variable {T : Type} [Disk T] [Reporting T]

/-- Nothing of the disk. -/
abbrev blind : T → Unit := fun _ => ()

theorem diskRead_safe {buf : List UInt8} (h : buf.length ≤ 512) (dev s : UInt32) :
    Safe (blind (T := T)) (diskRead buf dev s) () fun b _ => b.length = buf.length := by
  have hread : Safe (onView (blind (T := T))) (mapErr FsError.diskFault (Disk.read dev s))
      ((), buf) fun _ w => w.2.length = buf.length := by
    refine Safe.mapErr ?_
    rintro ⟨d, b⟩ hd
    obtain ⟨_, rfl⟩ := Prod.mk.inj hd
    exact ⟨Reporting.read_ends d b dev s h, fun _ _ => Disk.length_read dev s (d, b)⟩
  exact hread.withLocal.then fun r w hr => safe_pure hr

theorem diskWrite_safe {buf : List UInt8} (h : buf.length ≤ 512) (dev s : UInt32) :
    Safe (blind (T := T)) (diskWrite buf dev s) () fun n _ => n = buf.length := by
  refine Safe.mapErr ?_
  intro d _
  exact ⟨Reporting.write_ends d buf dev s h, fun n hn => Reporting.write_reports d buf dev s n h hn⟩

/-! ## 2. Blocks -/

/-- `rposition` finds an entry. -/
theorem rposition_found {p : UInt32 → Bool} {l : List UInt32} {k : Nat}
    (h : rposition p l = some k) : ∃ b, l[k]? = some b ∧ p b = true := by
  obtain ⟨n, hn, rfl⟩ := Option.map_eq_some_iff.mp h
  obtain ⟨hlt, hp, _⟩ := List.findIdx?_eq_some_iff_getElem.mp hn
  rw [List.length_reverse] at hlt
  rw [List.getElem_reverse] at hp
  exact ⟨_, List.getElem?_eq_getElem (by omega), hp⟩

/-- **A block that is allocated has an address**, whatever the disk holds. -/
theorem allocBlock_safe (dev : UInt32) :
    Safe (blind (T := T)) (allocBlock dev) () fun b _ => b ≠ 0 := by
  have hzero := length_zeroBlock
  unfold allocBlock
  refine (diskRead_safe (le_of_eq hzero) dev _).then fun sbBlock _ hsb => ?_
  by_cases hhead : (bufferToSb sbBlock).freelistStart = unusedBlockaddr
  · rw [if_pos hhead]
    exact safe_fail _
  · rw [if_neg hhead]
    refine (diskRead_safe (by omega) dev _).then fun block _ hblock => ?_
    split
    · next index hfound =>
      obtain ⟨b, hb, hp⟩ := rposition_found hfound
      rw [List.getElem?_drop, Nat.add_comm] at hb
      have hlt : index + 1 < block.length / 4 := by
        rw [← length_words]
        exact (List.getElem?_eq_some_iff.mp hb).1
      have hset : (setWord block (index + 1) unusedBlockaddr).length = block.length :=
        length_setWord _ hlt
      refine Gives.then (gives_ofOption hb) ?_
      refine (diskWrite_safe (by omega) dev _).then fun _ _ _ => ?_
      refine (diskWrite_safe (le_of_eq hzero) dev _).then fun _ _ _ => safe_pure ?_
      exact bne_iff_ne.mp hp
    · have hword : (words block)[0]? = some (u32At block (4 * 0)) := by
        rw [getElem?_words, if_pos (by omega)]
      refine Gives.then (gives_ofOption hword) ?_
      refine (diskRead_safe (le_of_eq hzero) dev _).then fun sbBuf _ hbuf => ?_
      have hsb' : (setFreelistStart sbBuf (u32At block (4 * 0))).length = 512 :=
        length_setFreelistStart _ (hbuf.trans hzero)
      refine (diskWrite_safe (le_of_eq hzero) dev _).then fun _ _ _ => ?_
      exact (diskWrite_safe (le_of_eq hsb') dev _).then fun _ _ _ => safe_pure hhead

/-- `j` is `i` with blocks mapped at the indices in `K`. -/
structure MappedAt (i : Inode) (K : Nat → Prop) (j : Inode) : Prop where
  size : j.size = i.size
  maps : ∀ k, j.Maps k ↔ i.Maps k ∨ K k

theorem MappedAt.trans {i j l : Inode} {K L M : Nat → Prop} (h1 : MappedAt i K j)
    (h2 : MappedAt j L l) (hM : ∀ k, M k ↔ K k ∨ L k) : MappedAt i M l where
  size := h2.size.trans h1.size
  maps k := by rw [h2.maps, h1.maps, hM, or_assoc]

/-- No block was needed. -/
theorem MappedAt.refl (i : Inode) {K : Nat → Prop} (hK : ∀ k, ¬ K k) : MappedAt i K i where
  size := rfl
  maps k := (or_iff_left (hK k)).symm

theorem Inode.maps_mapBlock (i : Inode) {n : Nat} (hn : n < 64) {b : UInt32} (hb : b ≠ 0) :
    MappedAt i (· = n) (i.mapBlock n b) where
  size := rfl
  maps k := by
    by_cases hk : k = n
    · subst hk
      exact iff_of_true ⟨b, mapBlock_self i hn b, hb⟩ (Or.inr rfl)
    · unfold Inode.Maps
      rw [mapBlock_other i (Ne.symm hk) b]
      exact (or_iff_left hk).symm

/-- **The block at an index is mapped afterwards**, or there was an error. -/
theorem bmapOrAlloc_safe (i : Inode) {k : Nat} (hk : k < 64) :
    Safe (onView (blind (T := T))) (bmapOrAlloc k) ((), i) fun _ w => MappedAt i (· = k) w.2 := by
  obtain ⟨b, hb⟩ : ∃ b, i.blocks[k]? = some b := ⟨_, Vector.getElem?_eq_getElem hk⟩
  unfold bmapOrAlloc
  refine gives_theInode.then ((gives_ofOption hb).then ?_)
  by_cases h0 : b = unusedBlockaddr
  · rw [if_pos h0]
    refine (allocBlock_safe i.device).onFst_then fun c _ hc => (gives_setTheInode _).then ?_
    exact gives_theInode.then ((gives_ofOption (mapBlock_self i hk c)).safe (i.maps_mapBlock hk hc))
  · rw [if_neg h0]
    refine gives_theInode.then ((gives_ofOption hb).safe ⟨rfl, fun m => ?_⟩)
    refine ⟨Or.inl, fun h => h.elim id ?_⟩
    rintro rfl
    exact ⟨b, hb, h0⟩

/-! ## 3. Writing -/

/-- The first block: the inode stays as it is. -/
theorem writeFirst_safe (i : Inode) (src : List UInt8) (offset : Nat) (b : UInt32) :
    Safe (onView (blind (T := T))) (writeFirst src offset b) ((), i)
      fun n w => n = firstWritten src offset ∧ w.2 = i := by
  have hzero := length_zeroBlock
  unfold writeFirst firstWritten
  refine gives_theInode.then ?_
  by_cases h : offset % 512 ≠ 0
  · rw [if_pos h, if_pos h]
    refine (diskRead_safe (le_of_eq hzero) i.device b).onFst_then fun tmp _ htmp => ?_
    have hlen : (splice tmp (offset % blockSize)
        (src.take (blockSize - offset % blockSize))).length = 512 := by
      rw [length_splice]
      · exact htmp.trans hzero
      · rw [List.length_take]
        simp only [blockSize]
        omega
    rw [← hlen]
    exact (diskWrite_safe (le_of_eq hlen) i.device b).onFst
  · rw [if_neg h, if_neg h]
    have hlen : (src.take (min blockSize src.length)).length = min 512 src.length := by
      rw [List.length_take]
      simp only [blockSize]
      omega
    have hle : (src.take (min blockSize src.length)).length ≤ 512 := by
      rw [hlen]
      exact Nat.min_le_left _ _
    refine (diskWrite_safe hle i.device b).onFst.mono fun n w hn => ?_
    exact ⟨hn.1.trans hlen, hn.2⟩

/-- The chunks of `n` bytes from index `lo` on go to the blocks from the offset `lo` on. -/
def ChunkAt (lo n k : Nat) : Prop := lo / 512 ≤ k ∧ 512 * k + lo % 512 < n

theorem writeChunks_safe (i : Inode) {src : List UInt8} (hsrc : src.length ≤ 32768) (lo : Nat) :
    Safe (onView (blind (T := T)))
      (writeChunks src (chunkBounds lo src.length) (min lo src.length)) ((), i)
      fun n w => n = src.length ∧ MappedAt i (ChunkAt lo src.length) w.2 := by
  fun_induction chunkBounds lo src.length generalizing i with
  | case1 lo h ih =>
    simp only [blockSize] at ih ⊢
    rw [Nat.min_eq_left (Nat.le_of_lt h), writeChunks]
    have hlen := length_chunkAt src lo
    have hle : (chunkAt src lo).length ≤ 512 := by omega
    refine (bmapOrAlloc_safe i (show lo / 512 < 64 by omega)).then ?_
    rintro b ⟨_, j⟩ hj
    refine gives_theInode.then ?_
    refine (diskWrite_safe hle j.device b).onFst_then fun n _ hn => ?_
    have hsum : lo + n % 2 ^ 32 = min (lo + 512) src.length := by
      rw [hn, hlen, Nat.mod_eq_of_lt (by omega)]
      omega
    refine (gives_checkedAdd (by omega)).then ?_
    rw [hsum]
    refine (ih j).mono fun m w hw => ⟨hw.1, hj.trans hw.2 fun k => ?_⟩
    unfold ChunkAt
    omega
  | case2 lo h =>
    have hle : src.length ≤ lo := by omega
    rw [Nat.min_eq_right hle, writeChunks]
    refine safe_pure ⟨rfl, MappedAt.refl i fun k => ?_⟩
    unfold ChunkAt
    omega

/-- The size after a write of `n` bytes at `offset` to a file of `size` bytes, where the disk
    reported `w` bytes for the first block. -/
def sizeAfter (size offset w n : Nat) : Nat :=
  if n ≤ offset + w then (if size < offset + w then size + n else size) else max size n

/-- The blocks such a write maps: the first one, and those the chunk loop goes to. -/
def Touched (offset n k : Nat) : Prop := k = offset / 512 ∨ ChunkAt (offset + 512) n k

/-- **The write behind its checks.** -/
theorem writeBytes_safe (i : Inode) {src : List UInt8} {offset : Nat} (hoff : offset < 32768)
    (hsrc : src.length ≤ 32768) :
    Safe (onView (blind (T := T))) (writeBytes src offset) ((), i) fun _ w =>
      w.2.size.toNat = sizeAfter i.size.toNat offset (firstWritten src offset) src.length ∧
      ∀ k, w.2.Maps k ↔ i.Maps k ∨ Touched offset src.length k := by
  have hmod : src.length % 2 ^ 32 = src.length := Nat.mod_eq_of_lt (by omega)
  have hw := firstWritten_le src offset
  unfold writeBytes
  rw [hmod]
  refine (bmapOrAlloc_safe i (show offset / 512 < 64 by omega)).then ?_
  rintro b ⟨_, j⟩ hj
  refine (writeFirst_safe j src offset b).then ?_
  rintro n ⟨_, j'⟩ ⟨rfl, rfl⟩
  refine (gives_checkedAdd (by omega)).then ?_
  rw [Nat.mod_eq_of_lt (show firstWritten src offset < 2 ^ 32 by omega)]
  refine gives_theInode.then ?_
  unfold sizeAfter
  by_cases hend : src.length ≤ offset + firstWritten src offset
  · -- the chunk loop is not reached
    have hnone : ∀ k, j'.Maps k ↔ i.Maps k ∨ Touched offset src.length k := by
      intro k
      rw [hj.maps]
      refine or_congr_right ⟨Or.inl, ?_⟩
      rintro (h | ⟨h1, h2⟩)
      · exact h
      · omega
    rw [if_pos hend, if_pos hend, hj.size]
    by_cases hpast : i.size.toNat < offset + firstWritten src offset
    · rw [if_pos hpast, if_pos hpast]
      refine (gives_checkedAdd (by omega)).then ((gives_setTheInode _).then (safe_pure ⟨?_, hnone⟩))
      show (UInt32.ofNat (i.size.toNat + src.length)).toNat = _
      rw [UInt32.toNat_ofNat', Nat.mod_eq_of_lt (by omega)]
    · rw [if_neg hpast, if_neg hpast]
      exact safe_pure ⟨congrArg UInt32.toNat hj.size, hnone⟩
  · have hfull := firstWritten_full (Nat.lt_of_not_le hend)
    rw [if_neg hend, if_neg hend]
    rw [hfull] at hend ⊢
    refine (gives_require (by omega)).then ?_
    have hloop := writeChunks_safe (T := T) j' hsrc (offset + 512)
    rw [Nat.min_eq_left (by omega)] at hloop
    refine hloop.then ?_
    rintro n ⟨_, l⟩ ⟨rfl, hl⟩
    have hboth : MappedAt i (Touched offset src.length) l := hj.trans hl fun k => Iff.rfl
    refine gives_theInode.then ?_
    rw [hboth.size]
    by_cases hpast : i.size.toNat < src.length
    · rw [if_pos hpast]
      refine (gives_setTheInode _).then (safe_pure ⟨?_, hboth.maps⟩)
      show (UInt32.ofNat src.length).toNat = _
      rw [UInt32.toNat_ofNat', Nat.mod_eq_of_lt (by omega), Nat.max_eq_right (Nat.le_of_lt hpast)]
    · rw [if_neg hpast]
      refine safe_pure ⟨?_, hboth.maps⟩
      rw [Nat.max_eq_left (Nat.le_of_not_lt hpast)]
      exact congrArg UInt32.toNat hboth.size

omit [Reporting T] in
/-- The end of a file of the largest size: the index is past the block array. -/
theorem write_panics (i : Inode) {src : List UInt8} {offset : UInt32} (ht : i.type_ ≠ .unused)
    (hoff : offset.toNat = 32768) (hsize : i.size.toNat = 32768) (hsrc : src = []) :
    Gives (onView (blind (T := T))) (write src offset) ((), i) .panic ((), i) := by
  subst hsrc
  refine write_checked ht ?_
  have hnone : i.blocks[offset.toNat / 512]? = none := by
    rw [hoff]
    exact Vector.getElem?_eq_none (by decide)
  rw [if_neg (by rw [hoff, hsize]; decide)]
  refine Gives.then_panic (gives_theInode.then (Gives.then_panic ?_))
  rw [hnone]
  exact gives_crash

/-- **Every other write does not panic.** -/
theorem write_safe (i : Inode) {src : List UInt8} {offset : UInt32} (hsize : i.size.toNat ≤ 32768)
    (hsrc : src.length < 2 ^ 32)
    (h : ¬ (i.type_ ≠ .unused ∧ offset.toNat = 32768 ∧ i.size = offset ∧ src = [])) :
    Safe (onView (blind (T := T))) (write src offset) ((), i) fun _ w =>
      offset.toNat ≤ i.size.toNat ∧
      w.2.size.toNat = sizeAfter i.size.toNat offset.toNat (firstWritten src offset.toNat)
        src.length ∧
      ∀ k, w.2.Maps k ↔ i.Maps k ∨ Touched offset.toNat src.length k := by
  by_cases ht : i.type_ = .unused
  · unfold write
    refine gives_theInode.then ?_
    rw [ht]
    exact safe_fail _
  · refine write_checked ht ?_
    rw [Nat.mod_eq_of_lt hsrc]
    by_cases hlarge : i.size.toNat < offset.toNat ∨ 32768 < offset.toNat + src.length
    · rw [if_pos hlarge]
      exact safe_fail _
    · rw [if_neg hlarge]
      have hoff : offset.toNat ≠ 32768 := by
        intro hoff
        refine h ⟨ht, hoff, UInt32.toNat.inj (by omega), List.length_eq_zero_iff.mp (by omega)⟩
      exact (writeBytes_safe i (by omega) (by omega)).mono fun _ _ hw => ⟨by omega, hw⟩

/-! ## 4. Reading -/

theorem bmap_safe {σ υ : Type} {view : σ → υ} {v : υ} (i : Inode) {k : Nat} (hk : k < 64) :
    Safe view (bmap i k) v fun _ w => w = v := by
  obtain ⟨b, hb⟩ : ∃ b, i.blocks[k]? = some b := ⟨_, Vector.getElem?_eq_getElem hk⟩
  unfold bmap
  refine (gives_ofOption hb).then ?_
  split
  · exact safe_fail _
  · exact safe_pure rfl

theorem readChunks_safe (i : Inode) (lo : Nat) {len pos : Nat} (buf : List UInt8)
    (hmax : pos + (len - lo) ≤ 32768) :
    Safe (onView (blind (T := T))) (readChunks i (chunkBounds lo len) pos) ((), buf)
      fun _ _ => True := by
  fun_induction chunkBounds lo len generalizing buf pos with
  | case1 lo h ih =>
    simp only [blockSize] at ih ⊢
    rw [readChunks]
    refine (bmap_safe i (show pos / 512 < 64 by omega)).then fun b _ hw => ?_
    subst hw
    have hread : Safe (onView (blind (T := T))) (mapErr FsError.diskFault
        (Disk.read i.device b)) ((), slice buf lo (min (lo + 512) len - lo)) fun _ _ => True := by
      refine Safe.mapErr ?_
      rintro ⟨d, c⟩ hd
      obtain ⟨_, rfl⟩ := Prod.mk.inj hd
      refine ⟨Reporting.read_ends d _ i.device b ?_, fun _ _ => trivial⟩
      rw [length_slice]
      omega
    refine Safe.then (Q := fun _ _ => True) (Safe.onPart hread) ?_
    rintro _ ⟨_, mid⟩ _
    exact (gives_checkedAdd (by omega)).then (ih mid (by omega))
  | case2 lo h =>
    rw [readChunks]
    exact safe_pure trivial

/-- **The read behind its checks.** -/
theorem readBytes_safe (i : Inode) {offset len : Nat} (buf : List UInt8) (hoff : offset < 32768)
    (hend : offset + len ≤ 32768) :
    Safe (onView (blind (T := T))) (readBytes i offset len) ((), buf) fun _ _ => True := by
  have hzero := length_zeroBlock
  unfold readBytes
  refine (bmap_safe i (show offset / 512 < 64 by omega)).then fun b _ hw => ?_
  subst hw
  refine (diskRead_safe (le_of_eq hzero) i.device b).onFst_then fun tmp _ htmp => ?_
  have htail : (tmp.drop (offset % blockSize)).length = 512 - offset % 512 := by
    rw [List.length_drop, htmp, hzero]
  dsimp only
  refine Gives.then (gives_setBuffer fun c => splice c 0
    ((tmp.drop (offset % blockSize)).take len)) ?_
  rw [htail]
  refine (gives_checkedAdd (by omega)).then ?_
  by_cases hshort : len ≤ offset + (512 - offset % 512)
  · rw [if_pos hshort]
    exact safe_pure trivial
  · rw [if_neg hshort]
    have hblock : (offset + (512 - offset % 512)) % blockSize = 0 := by
      simp only [blockSize]
      omega
    rw [hblock]
    refine (gives_require (by simp only [blockSize]; omega)).then ?_
    refine (readChunks_safe i _ _ (by simp only [blockSize]; omega)).then fun _ _ _ => ?_
    exact safe_pure trivial

omit [Reporting T] in
theorem read_panics (i : Inode) {buf : List UInt8} {offset : UInt32} (ht : i.type_ ≠ .unused)
    (hoff : offset.toNat = 32768) (hsize : i.size.toNat = 32768)
    (hbuf : offset.toNat + buf.length < 2 ^ 32) :
    Gives (onView (blind (T := T))) (read i offset) ((), buf) .panic ((), buf) := by
  refine read_checked ht ?_
  have hnone : i.blocks[offset.toNat / 512]? = none := by
    rw [hoff]
    exact Vector.getElem?_eq_none (by decide)
  have hmod : buf.length % 2 ^ 32 = buf.length := Nat.mod_eq_of_lt (by omega)
  rw [if_neg (by omega)]
  unfold readBytes bmap
  refine Gives.then_panic (Gives.then_panic ?_)
  rw [hnone]
  exact gives_crash

/-- **Every other read does not panic.** -/
theorem read_safe (i : Inode) {buf : List UInt8} {offset : UInt32} (hsize : i.size.toNat ≤ 32768)
    (hbuf : buf.length < 2 ^ 32)
    (h : ¬ (i.type_ ≠ .unused ∧ offset.toNat = 32768 ∧ i.size = offset ∧
      offset.toNat + buf.length < 2 ^ 32)) :
    Safe (onView (blind (T := T))) (read i offset) ((), buf) fun _ _ => True := by
  by_cases ht : i.type_ = .unused
  · unfold read
    rw [ht]
    exact safe_fail _
  · refine read_checked ht ?_
    rw [Nat.mod_eq_of_lt hbuf]
    by_cases hlarge : i.size.toNat < offset.toNat ∨ 2 ^ 32 ≤ offset.toNat + buf.length
    · rw [if_pos hlarge]
      exact safe_fail _
    · rw [if_neg hlarge]
      have hoff : offset.toNat ≠ 32768 := by
        intro hoff
        exact h ⟨ht, hoff, UInt32.toNat.inj (by omega), by omega⟩
      exact readBytes_safe i buf (by omega) (by omega)

/-! ## 5. Panics -/

/-- **`read` and `write` panic at one offset.** For every inode of at most the largest size,
    whatever its type and blocks, every offset and every buffer of fewer than `2 ^ 32` bytes, on
    any disk that reports what it wrote: a read panics exactly at the end of a file of the largest
    size, and a write exactly there, if it is empty. -/
theorem read_write_panic_iff (d : T) (i : Inode) (offset : UInt32) (buf : List UInt8)
    (hsize : i.size.toNat ≤ maxFile * blockSize) (hbuf : buf.length < 2 ^ 32) :
    ((read i offset (d, buf)).1 = .panic ↔ i.type_ ≠ .unused ∧ offset.toNat = maxFile * blockSize ∧
      i.size = offset ∧ offset.toNat + buf.length < 2 ^ 32) ∧
    ((write buf offset (d, i)).1 = .panic ↔ i.type_ ≠ .unused ∧
      offset.toNat = maxFile * blockSize ∧ i.size = offset ∧ buf = []) := by
  have hmax : maxFile * blockSize = 32768 := rfl
  rw [hmax] at hsize ⊢
  constructor
  · constructor
    · intro hpanic
      by_contra h
      exact (read_safe i hsize hbuf h (d, buf) rfl).1 hpanic
    · rintro ⟨ht, hoff, hend, hsum⟩
      have hlast : i.size.toNat = 32768 := by rw [hend, hoff]
      exact (read_panics i ht hoff hlast hsum (d, buf) rfl).1
  · constructor
    · intro hpanic
      by_contra h
      exact (write_safe i hsize hbuf h (d, i) rfl).1 hpanic
    · rintro ⟨ht, hoff, hend, hempty⟩
      have hlast : i.size.toNat = 32768 := by rw [hend, hoff]
      exact (write_panics i ht hoff hlast hempty (d, i) rfl).1

/-! ## 6. Writes that fail -/

/-- The inode has the size it had, and the blocks that were mapped are mapped. -/
def Kept (i : Inode) (w : Unit × Inode) : Prop :=
  w.2.size = i.size ∧ ∀ k, i.Maps k → w.2.Maps k

theorem Kept.whole {i : Inode} {w : Unit × Inode} (h : Kept i w) (hwhole : i.Whole) :
    w.2.Whole := by
  intro k hk
  rw [h.1] at hk
  exact h.2 k (hwhole k hk)

omit [Disk T] [Reporting T] in
/-- What is done on the disk does not change the inode. -/
theorem onDisk_keeps {α : Type} (m : Prog T FsError α) (P : Unit × Inode → Prop) :
    Keeps (onView (blind (T := T))) (onFst m) P := fun _ hw =>
  ends_onFst fun _ _ => hw

omit [Disk T] [Reporting T] in
theorem theInode_kept (P : Unit × Inode → Prop) :
    Keeps (onView (blind (T := T))) theInode P := fun _ hw => gives_theInode.ends hw

omit [Reporting T] in
theorem bmapOrAlloc_kept (i : Inode) (k : Nat) :
    Keeps (onView (blind (T := T))) (bmapOrAlloc k) (Kept i) := by
  rintro ⟨_, j⟩ hj
  have hrest : Keeps (onView (blind (T := T))) (do
      let inode ← theInode
      ofOption inode.blocks[k]?) (Kept i) :=
    keeps_bind (theInode_kept _) fun _ => keeps_ofOption _
  unfold bmapOrAlloc
  refine gives_theInode.then ?_
  cases hb : j.blocks[k]? with
  | none => exact Gives.then_panic gives_crash |>.ends hj
  | some b =>
    refine (gives_ofOption rfl).then ?_
    by_cases h0 : b = unusedBlockaddr
    · rw [if_pos h0]
      refine ends_bind_of (onDisk_keeps (allocBlock j.device) (· = ((), j)) _ rfl) ?_
        (fun _ _ hw => hw ▸ hj) (fun _ hw => hw ▸ hj)
      rintro c _ rfl
      refine (gives_setTheInode _).then (hrest _ ⟨hj.1, fun m hm => ?_⟩)
      -- the block that is mapped was not
      obtain ⟨b', hb', hne⟩ := hj.2 m hm
      have hmk : m ≠ k := by
        rintro rfl
        exact hne (Option.some.inj (hb'.symm.trans hb) |>.trans h0)
      exact ⟨b', (mapBlock_other j (Ne.symm hmk) c).trans hb', hne⟩
    · rw [if_neg h0]
      exact hrest _ hj

omit [Reporting T] in
theorem writeFirst_kept (i : Inode) (src : List UInt8) (offset : Nat) (b : UInt32) :
    Keeps (onView (blind (T := T))) (writeFirst src offset b) (Kept i) :=
  keeps_bind (theInode_kept _) fun _ =>
    keeps_ite (keeps_bind (onDisk_keeps _ _) fun _ => onDisk_keeps _ _) (onDisk_keeps _ _)

theorem checkedAdd_keeps {σ υ ε : Type} {view : σ → υ} (a b : Nat) (P : υ → Prop) :
    Keeps view (checkedAdd a b : Prog σ ε Nat) P :=
  keeps_ite (keeps_pure _) keeps_crash

omit [Reporting T] in
theorem writeChunks_kept (i : Inode) (src : List UInt8) :
    ∀ (bounds : List (Nat × Nat)) (offset : Nat),
    Keeps (onView (blind (T := T))) (writeChunks src bounds offset) (Kept i)
  | [], _ => keeps_pure _
  | _ :: rest, _ =>
    keeps_bind (bmapOrAlloc_kept i _) fun _ => keeps_bind (theInode_kept _) fun _ =>
      keeps_bind (onDisk_keeps _ _) fun _ => keeps_bind (checkedAdd_keeps _ _ _) fun _ =>
        writeChunks_kept i src rest _

omit [Reporting T] in
theorem writeBytes_err (i : Inode) (src : List UInt8) (offset : Nat) :
    KeepsOnErr (onView (blind (T := T))) (writeBytes src offset) (Kept i) := by
  unfold writeBytes
  refine keepsOnErr_bind (bmapOrAlloc_kept i _) fun b => ?_
  refine keepsOnErr_bind (writeFirst_kept i src offset b) fun n => ?_
  refine keepsOnErr_bind (checkedAdd_keeps _ _ _) fun stop => ?_
  refine keepsOnErr_bind (theInode_kept _) fun inode => keepsOnErr_ite ?_ ?_
  · dsimp only
    refine keepsOnErr_ite ?_ (keeps_pure _).onErr
    exact keepsOnErr_bind (checkedAdd_keeps _ _ _) fun _ =>
      keepsOnErr_then_pure _ (keepsOnErr_modify _)
  · refine keepsOnErr_bind (keeps_require _) fun _ => ?_
    refine keepsOnErr_bind (writeChunks_kept i src _ _) fun _ => ?_
    refine keepsOnErr_bind (theInode_kept _) fun inode => ?_
    dsimp only
    exact keepsOnErr_ite (keepsOnErr_then_pure _ (keepsOnErr_modify _)) (keeps_pure _).onErr

omit [Reporting T] in
/-- **A write that fails changes no size and unmaps no block.** -/
theorem write_err {d : T} {i : Inode} {src : List UInt8} {offset : UInt32} {e : FsError}
    (herr : (write src offset (d, i)).1 = .err e) : Kept i ((), (write src offset (d, i)).2.2) := by
  have hi : Kept i ((), i) := ⟨rfl, fun _ h => h⟩
  have hends : Ends (onView (blind (T := T))) (write src offset) ((), i) fun o w =>
      ∀ e, o = .err e → Kept i w := by
    by_cases ht : i.type_ = .unused
    · unfold write
      refine gives_theInode.then ?_
      rw [ht]
      exact ends_fail fun _ _ => hi
    · refine write_checked ht ?_
      split
      · exact ends_fail fun _ _ => hi
      · exact writeBytes_err i src _ _ hi
  exact hends (d, i) rfl e herr

/-! ## 7. The blocks below the size -/

/-- **The writes that leave no gap.** A write that ends with its first block adds its length to the
    size if the end of that block, as the disk reports it, is past the size: then the blocks from
    the old size to the new one have to be mapped, or to be that block. A write that goes on ends in
    the block of its length, which its chunk loop reaches unless the offset is further into its
    block than the length is. -/
def Covered (i : Inode) (offset : Nat) (src : List UInt8) : Prop :=
  if src.length ≤ offset + firstWritten src offset then
    offset + firstWritten src offset ≤ i.size.toNat ∨
      ∀ k, i.size.toNat ≤ 512 * k → 512 * k < i.size.toNat + src.length →
        k = offset / 512 ∨ i.Maps k
  else src.length % 512 = 0 ∨ offset % 512 < src.length % 512 ∨
    512 * (src.length / 512) < i.size.toNat ∨ i.Maps (src.length / 512)

/-- The blocks below the new size are mapped before or by the write. -/
theorem covered_iff {i : Inode} {offset : Nat} {src : List UInt8} (hwhole : i.Whole)
    (hoff : offset ≤ i.size.toNat) :
    (∀ k, 512 * k < sizeAfter i.size.toNat offset (firstWritten src offset) src.length →
      i.Maps k ∨ Touched offset src.length k) ↔ Covered i offset src := by
  have hw := firstWritten_le src offset
  have hbelow : ∀ k, 512 * k < i.size.toNat → i.Maps k := fun k hk => hwhole k (by omega)
  unfold sizeAfter Covered
  by_cases hend : src.length ≤ offset + firstWritten src offset
  · rw [if_pos hend, if_pos hend]
    by_cases hpast : i.size.toNat < offset + firstWritten src offset
    · rw [if_pos hpast, or_iff_right (Nat.not_le.mpr hpast)]
      refine ⟨fun h k hlo hhi => ?_, fun h k hk => ?_⟩
      · rcases h k hhi with hmap | hfirst | ⟨hblock, hchunk⟩
        · exact .inr hmap
        · exact .inl hfirst
        · omega
      · by_cases hlo : i.size.toNat ≤ 512 * k
        · exact (h k hlo hk).symm.imp id Or.inl
        · exact .inl (hbelow k (by omega))
    · rw [if_neg hpast]
      exact iff_of_true (fun k hk => .inl (hbelow k hk)) (.inl (Nat.le_of_not_lt hpast))
  · have hfull := firstWritten_full (Nat.lt_of_not_le hend)
    rw [if_neg hend, if_neg hend]
    rw [hfull] at hend
    refine ⟨fun h => ?_, fun h k hk => ?_⟩
    · by_cases hlast : 512 * (src.length / 512) < max i.size.toNat src.length
      · rcases h (src.length / 512) hlast with hmap | hfirst | ⟨hblock, hchunk⟩
        · exact .inr (.inr (.inr hmap))
        · omega
        · exact .inr (.inl (by omega))
      · exact .inl (by omega)
    · by_cases hlo : 512 * k < i.size.toNat
      · exact .inl (hbelow k hlo)
      · -- behind the old size: only the block of the length can be missed
        by_cases hlast : k = src.length / 512
        · subst hlast
          rcases h with h | h | h | h
          · omega
          · exact .inr (.inr ⟨by omega, by omega⟩)
          · exact absurd h hlo
          · exact .inl h
        · by_cases hfirst : k = offset / 512
          · exact .inr (.inl hfirst)
          · exact .inr (.inr ⟨by omega, by omega⟩)

/-- After a write that succeeds. -/
theorem write_whole_iff {d : T} {i : Inode} {offset : UInt32} {src : List UInt8} (hwhole : i.Whole)
    (hsrc : src.length < 2 ^ 32) {n : Nat} (hok : (write src offset (d, i)).1 = .ok n) :
    (write src offset (d, i)).2.2.Whole ↔ Covered i offset.toNat src := by
  have hnot : ¬ (i.type_ ≠ .unused ∧ offset.toNat = 32768 ∧ i.size = offset ∧ src = []) := by
    rintro ⟨ht, hoff, hend, hempty⟩
    have hpanic := (write_panics (T := T) i ht hoff (by rw [hend, hoff]) hempty (d, i) rfl).1
    rw [hok] at hpanic
    cases hpanic
  obtain ⟨hoff, hgrown, hmaps⟩ :=
    (write_safe (T := T) i hwhole.size_le hsrc hnot (d, i) rfl).2 n hok
  rw [← covered_iff hwhole hoff]
  unfold Inode.Whole
  rw [show (write src offset (d, i)).2.2.size.toNat = _ from hgrown]
  refine forall_congr' fun k => ?_
  rw [← hmaps k]
  exact imp_congr (by omega) Iff.rfl

/-- A write of a run: it ends, and if it succeeds it leaves no gap. -/
def CoveredWrite (s : T × Inode) (call : List UInt8 × UInt32) (t : T × Inode) : Prop :=
  t = (write call.1 call.2 s).2 ∧ call.1.length < 2 ^ 32 ∧ (write call.1 call.2 s).1 ≠ .panic ∧
    ∀ n, (write call.1 call.2 s).1 = .ok n → Covered s.2 call.2.toNat call.1

theorem coveredWrite_whole (s : T × Inode) (call : List UInt8 × UInt32) (t : T × Inode)
    (h : s.2.Whole) (hst : CoveredWrite s call t) : t.2.Whole := by
  obtain ⟨rfl, hsrc, hends, hcovered⟩ := hst
  obtain ⟨src, offset⟩ := call
  obtain ⟨d, i⟩ := s
  cases hrun : (write src offset (d, i)).1 with
  | ok n => exact (write_whole_iff h hsrc hrun).mpr (hcovered n hrun)
  | err e => exact (write_err hrun).whole h
  | panic => exact absurd hrun hends

/-- **When writes keep the inode whole.** On any disk that reports what it wrote, whatever its
    freelist: along every run of writes that fail or leave no gap, from an inode whose blocks are
    mapped below its size -- a fresh one, say --, the size is at most the largest and the blocks
    below it are mapped; and a further write that succeeds keeps it so if and only if it leaves no
    gap. -/
theorem write_keeps_inode_iff {d₀ d : T} {i₀ i : Inode} {calls : List (List UInt8 × UInt32)}
    (hwhole : i₀.Whole) (hrun : Trace CoveredWrite (d₀, i₀) calls (d, i)) :
    (i.size.toNat ≤ maxFile * blockSize ∧ i.Whole) ∧
    ∀ (src : List UInt8) (offset : UInt32) (n : Nat), src.length < 2 ^ 32 →
      (write src offset (d, i)).1 = .ok n →
      ((write src offset (d, i)).2.2.size.toNat ≤ maxFile * blockSize ∧
        (write src offset (d, i)).2.2.Whole ↔ Covered i offset.toNat src) := by
  have hi : i.Whole := hrun.invariant (I := fun s => s.2.Whole) coveredWrite_whole hwhole
  refine ⟨⟨hi.size_le, hi⟩, fun src offset n hsrc hok => ?_⟩
  rw [← write_whole_iff hi hsrc hok]
  exact ⟨fun h => h.2, fun h => ⟨h.size_le, h⟩⟩

end Code

/-- A file of the largest size. -/
def fullInode : Inode where
  type_ := .file
  device := 1
  major := 0
  minor := 0
  size := 32768
  blocks := Vector.ofFn fun k => UInt32.ofNat (300 + k.val)

/-- A byte before the end can be read and written, also where the disk fails. -/
theorem read_write_no_panic_full :
    (read fullInode 32767 ((⟨blankDisk, some 0⟩ : Faulty MemDisk), [0])).1 ≠ .panic ∧
    (write [0] 32767 ((⟨blankDisk, some 0⟩ : Faulty MemDisk), fullInode)).1 ≠ .panic := by
  have h := read_write_panic_iff (⟨blankDisk, some 0⟩ : Faulty MemDisk) fullInode 32767 [0]
    (by decide) (by decide)
  exact ⟨mt h.1.mp (by decide), mt h.2.mp (by decide)⟩

/-- At the end of the file both panic. -/
theorem read_write_panic_full :
    (read fullInode 32768 (blankDisk, [0])).1 = .panic ∧
    (write [] 32768 (blankDisk, fullInode)).1 = .panic := by
  decide +kernel

/-- A new file of 500 bytes, and the file filled up to a block. -/
def shortFile : MemDisk × Inode :=
  (write (List.replicate 500 1) 0 (oneBlockDisk, freshInode .file 1)).2
def filledFile : MemDisk × Inode := (write (List.replicate 12 1) 500 shortFile).2

/-- A byte written near the start of the filled file is added to its size, which then takes a second
    block. -/
theorem write_keeps_inode_filled :
    Trace CoveredWrite (oneBlockDisk, freshInode .file 1)
        [(List.replicate 500 1, 0), (List.replicate 12 1, 500)] filledFile ∧
      filledFile.2.size = 512 ∧ filledFile.2.Whole ∧ (write [1] 1 filledFile).1 = .ok 1 ∧
      ¬ (write [1] 1 filledFile).2.2.Whole := by
  obtain ⟨hends, hends', hshort, hfilled, hok, hnone⟩ :
      (write (List.replicate 500 1) 0 (oneBlockDisk, freshInode .file 1)).1 ≠ .panic ∧
      (write (List.replicate 12 1) 500 shortFile).1 ≠ .panic ∧ shortFile.2.size = 500 ∧
      filledFile.2.size = 512 ∧ (write [1] 1 filledFile).1 = .ok 1 ∧
      filledFile.2.blocks[1]? = some 0 := by
    decide +kernel
  have hfresh : (freshInode .file 1).Whole := fun k hk => absurd hk (Nat.not_lt_zero k)
  have hfirst : CoveredWrite (oneBlockDisk, freshInode .file 1)
      (List.replicate 500 1, 0) shortFile := by
    refine ⟨rfl, by decide +kernel, hends, fun _ _ => ?_⟩
    rw [Covered, if_pos (by decide +kernel), List.length_replicate]
    refine .inr fun k _ hhi => .inl ?_
    have hlt : 512 * k < 0 + 500 := hhi
    show k = 0
    omega
  have hsecond : CoveredWrite shortFile (List.replicate 12 1, 500) filledFile := by
    refine ⟨rfl, by decide +kernel, hends', fun _ _ => ?_⟩
    rw [Covered, if_pos (by decide +kernel), hshort, List.length_replicate]
    refine .inr fun k hlo hhi => ?_
    have hlt : 512 * k < 500 + 12 := hhi
    have hle : 500 ≤ 512 * k := hlo
    omega
  have hrun := (Trace.single hfirst).snoc hsecond
  -- what the file is does not matter any more, and is not to be computed again
  obtain ⟨d, i, hfile⟩ : ∃ d i, filledFile = (d, i) := ⟨_, _, Prod.mk.eta.symm⟩
  rw [hfile] at hfilled hok hnone hrun ⊢
  obtain ⟨⟨_, hwhole⟩, hiff⟩ := write_keeps_inode_iff hfresh hrun
  refine ⟨hrun, hfilled, hwhole, hok, fun h => ?_⟩
  have hcovered := (hiff [1] 1 1 (by decide) hok).mp ⟨h.size_le, h⟩
  rw [Covered, if_pos (by decide), hfilled] at hcovered
  -- block 1 is below the new size
  rcases hcovered with hpast | hmapped
  · exact absurd hpast (by decide)
  · rcases hmapped 1 (by decide) (by decide) with hblock | ⟨b, hb, hne⟩
    · exact absurd hblock (by decide)
    · exact hne (Option.some.inj (hb.symm.trans hnone))

/-- **Bytes that were overwritten are added to the size.** From the last byte of a file of 600 bytes
    to the end of its second block: the size becomes 1025, which takes a third block. -/
theorem overwrite_leaves_unmapped :
    twoBlockInode.Whole ∧
    (write (List.replicate 425 1) 599 (blankDisk, twoBlockInode)).1 = .ok 425 ∧
    (write (List.replicate 425 1) 599 (blankDisk, twoBlockInode)).2.2.size = 1025 ∧
    ¬ (write (List.replicate 425 1) 599 (blankDisk, twoBlockInode)).2.2.Whole := by
  have hrun : (write (List.replicate 425 1) 599 (blankDisk, twoBlockInode)).1 = .ok 425 ∧
      (write (List.replicate 425 1) 599 (blankDisk, twoBlockInode)).2.2.size = 1025 ∧
      (write (List.replicate 425 1) 599 (blankDisk, twoBlockInode)).2.2.blocks[2]? = some 0 := by
    decide +kernel
  refine ⟨twoBlockInode_whole, hrun.1, hrun.2.1, ?_⟩
  intro h
  obtain ⟨b, hb, h0⟩ := h 2 (by rw [hrun.2.1]; decide)
  rw [hrun.2.2] at hb
  exact h0 (Option.some.inj hb).symm

end Sprocket.SimpleFs
