/-
  File:      Sprocket/SimpleFs/FailedWrites.lean
  Subject:   WHAT A WRITE THAT FAILS LEAVES BEHIND.

  `write` checks the offset and the length before it does anything, but it allocates and overwrites
  block by block. A failed write may leave the file as it was for two reasons: it failed before the
  first block was written (`write_unchanged`), or nothing it changed belongs to the file. What runs
  out in the chunk loop (`RunsOut`) has written its first block, and has taken every block the
  freelist had (`write_exhausted`).

  * `write_fails_clean_iff` -- so a failed write leaves the file and the number of free blocks as
    they were exactly if it does not run out in the loop, or appends and found the freelist empty.
-/
import Sprocket.SimpleFs.FreelistRuns
import Sprocket.SimpleFs.Offsets

namespace Sprocket.SimpleFs

open Bytes Prog

section Running

variable {T : Type} [Disk T] [FaultFree T] {dev : UInt32} {f : Sectors} {i : Inode}
  {st : List UInt32}

/-! ## 1. Out of blocks in the chunk loop -/

/-- What remains of the file when the blocks ran out: the freelist is empty, the size is as it was,
    and so are the bytes below the block of `lo`. -/
structure Exhausted (f : Sectors) (i : Inode) (lo : Nat) (g : Sectors) (j : Inode) : Prop where
  freelist : Freelist g []
  size : j.size = i.size
  below : ∀ p, p / 512 < lo / 512 → fileByte g j p = fileByte f i p

theorem blocks_of_toMap {k : Nat} (h : 0 < toMap i k) : i.blocks[k]? = some 0 := by
  unfold toMap at h
  by_contra hne
  rw [if_neg hne] at h
  exact absurd h (by decide)

/-- **The loop fails when the freelist is shorter than the blocks it needs.** -/
theorem writeChunks_exhausted {src : List UInt8} (hsrc : src.length ≤ 32768) (lo : Nat)
    (ho : Own f i st) (hdev : i.device = dev) (hshort : st.length < needed i lo src.length) :
    ∃ g j, Gives (fileView (T := T) dev)
        (writeChunks src (chunkBounds lo src.length) (min lo src.length)) (f, i)
        (.err .exhaustedBlocks) (g, j) ∧ Exhausted f i lo g j := by
  fun_induction chunkBounds lo src.length generalizing f i st with
  | case1 lo h ih =>
    simp only [blockSize] at ih ⊢
    rw [needed_cons i h] at hshort
    rw [Nat.min_eq_left (Nat.le_of_lt h), writeChunks]
    by_cases hfree : toMap i (lo / 512) ≤ st.length
    · obtain ⟨g, j, st', b, hb, hp⟩ := bmapOrAlloc_placed (T := T) ho hdev (k := lo / 512)
        (by omega) hfree
      have hlen := length_chunkAt src lo
      have hw := hp.write ((g b).overwrite (chunkAt src lo))
      have hneed : needed j (lo + 512) src.length = needed i (lo + 512) src.length :=
        needed_congr fun m hm => hp.others m (by omega)
      have hcost := hw.cost
      obtain ⟨g', j', hg, hx⟩ := ih hw.own (hp.grew.device.trans hdev) (by omega)
      refine ⟨g', j', ?_, hx.freelist, hx.size.trans hw.size, ?_⟩
      · refine hb.then (gives_theInode.then ?_)
        rw [hp.grew.device, hdev]
        refine (diskWrite_gives (show (chunkAt src lo).length ≤ 512 by omega)).onFst.then ?_
        rw [hlen, Nat.mod_eq_of_lt (by omega)]
        have e : lo + (min (lo + 512) src.length - lo) = min (lo + 512) src.length := by omega
        refine (gives_checkedAdd (by omega)).then ?_
        rw [e]
        exact hg
      · intro p hp'
        rw [hx.below p (by omega), hw.elsewhere p (by omega)]
    · -- this is the block there is none for
      have hle := toMap_le i (lo / 512)
      have hnil : st = [] := List.length_eq_zero_iff.mp (by omega)
      have hfl : Freelist f [] := hnil ▸ ho.freelist
      have hzero : i.blocks[lo / 512]? = some 0 := blocks_of_toMap (by omega)
      refine ⟨f, i, ?_, hfl, rfl, fun _ _ => rfl⟩
      exact (bmapOrAlloc_exhausted hzero hdev hfl).then_err
  | case2 lo h =>
    rw [needed_nil i (by omega)] at hshort
    exact absurd hshort (Nat.not_lt_zero _)

/-- The write passes its checks, has its first block, and needs more blocks than there are. -/
structure RunsOut (i : Inode) (offset n : Nat) (st : List UInt32) : Prop where
  start : offset ≤ i.size.toNat
  stop : offset + n ≤ 32768
  goesOn : offset + 512 < n
  first : toMap i (offset / 512) ≤ st.length
  short : st.length < toMap i (offset / 512) + needed i (offset + 512) n

/-- **A write that runs out in its chunk loop** has written its first block and emptied the
    freelist. -/
theorem write_exhausted (ho : Own f i st) (hdev : i.device = dev) (ht : i.type_ ≠ .unused)
    {src : List UInt8} {offset : UInt32} (h : RunsOut i offset.toNat src.length st) :
    ∃ g j, Gives (fileView (T := T) dev) (write src offset) (f, i) (.err .exhaustedBlocks) (g, j) ∧
      Exhausted f i offset.toNat g j ∧
      ∀ p, p / 512 = offset.toNat / 512 → fileByte g j p =
        ((blockOf f i (offset.toNat / 512)).patch offset.toNat src).val[p % 512]? := by
  obtain ⟨hstart, hstop, hmore, hfirst, hshort⟩ := h
  have hlen : offset.toNat + firstWritten src offset.toNat < src.length := by
    have hle := firstWritten_le src offset.toNat
    omega
  obtain ⟨g, j, st', b, hb, hp⟩ := bmapOrAlloc_placed (T := T) ho hdev
    (k := offset.toNat / 512) (by omega) hfirst
  have hjdev : j.device = dev := hp.grew.device.trans hdev
  have hw := hp.write ((g b).patch offset.toNat src)
  have hneed : needed j (offset.toNat + 512) src.length =
      needed i (offset.toNat + 512) src.length := needed_congr fun m hm => hw.others m (by omega)
  have hcost := hw.cost
  have hsrc : src.length ≤ 32768 := by omega
  obtain ⟨g', j', hc, hx⟩ := writeChunks_exhausted (T := T) hsrc (offset.toNat + 512) hw.own
    hjdev (by omega)
  refine ⟨g', j', ?_, ⟨hx.freelist, hx.size.trans hw.size, ?_⟩, ?_⟩
  · exact write_gives ht hstart hstop
      (writeBytes_loop hjdev src offset.toNat hsrc hlen hb hc.then_err)
  · intro p hp'
    rw [hx.below p (by omega), hw.elsewhere p (by omega)]
  · intro p hp'
    rw [hx.below p (by omega), hw.here p hp', hp.holds]

/-- The view at the end of a run that does not fail, or fails at once. -/
abbrev SameOnError (f : Sectors) (i : Inode) (o : Outcome FsError Nat) (w : Sectors × Inode) :
    Prop := ∀ e, o = .err e → w = (f, i)

/-- The first block of a write: there is none at the end of the largest file, and no error but the
    one of an empty freelist. -/
theorem writeBytes_unchanged (ho : Own f i st) (hdev : i.device = dev) (hwhole : i.Whole)
    {src : List UInt8} {offset : Nat} (hstart : offset ≤ i.size.toNat)
    (hstop : offset + src.length ≤ 32768) (h : ¬ RunsOut i offset src.length st) :
    Ends (fileView (T := T) dev) (writeBytes src offset) (f, i) (SameOnError f i) := by
  have hmax := hwhole.size_le
  by_cases hoff : offset < 32768
  · by_cases hfirst : toMap i (offset / 512) ≤ st.length
    · by_cases hlen : src.length ≤ offset + firstWritten src offset
      · obtain ⟨g, j, st', hg, _⟩ := writeBytes_first (T := T) ho hdev src offset hoff (by omega)
          (by omega) hfirst hlen
        exact hg.ends nofun
      · have hfull := firstWritten_full (Nat.lt_of_not_le hlen)
        have henough : toMap i (offset / 512) + needed i (offset + 512) src.length ≤ st.length := by
          by_contra hshort
          exact h ⟨hstart, hstop, by omega, hfirst, Nat.lt_of_not_le hshort⟩
        obtain ⟨g, j, st', g', j', st'', hg, _⟩ := writeBytes_rest (T := T) ho hdev src offset hoff
          (by omega) henough (Nat.lt_of_not_le hlen)
        exact hg.ends nofun
    · have hle := toMap_le i (offset / 512)
      have hnil : st = [] := List.length_eq_zero_iff.mp (by omega)
      have hfl : Freelist f [] := hnil ▸ ho.freelist
      have hzero : i.blocks[offset / 512]? = some 0 := blocks_of_toMap (by omega)
      have hg : Gives (fileView (T := T) dev) (writeBytes src offset) (f, i)
          (.err .exhaustedBlocks) (f, i) := (bmapOrAlloc_exhausted hzero hdev hfl).then_err
      exact hg.ends fun _ _ => rfl
  · have hnone : i.blocks[offset / 512]? = none :=
      Vector.getElem?_eq_none (show 64 ≤ offset / 512 by omega)
    have hg : Gives (fileView (T := T) dev) (writeBytes src offset) (f, i) .panic (f, i) :=
      (bmapOrAlloc_panics hnone).then_panic
    exact hg.ends nofun

/-- **A write that fails, and does not run out in its chunk loop, has changed nothing.** -/
theorem write_unchanged (ho : Own f i st) (hdev : i.device = dev) (ht : i.type_ ≠ .unused)
    (hwhole : i.Whole) {src : List UInt8} {offset : UInt32} (hsrc : src.length < 2 ^ 32)
    (h : ¬ RunsOut i offset.toNat src.length st) :
    Ends (fileView (T := T) dev) (write src offset) (f, i) (SameOnError f i) := by
  refine write_checked ht ?_
  rw [Nat.mod_eq_of_lt hsrc]
  by_cases hlarge : i.size.toNat < offset.toNat ∨ 32768 < offset.toNat + src.length
  · rw [if_pos hlarge]
    exact ends_fail fun _ _ => rfl
  · rw [if_neg hlarge]
    exact writeBytes_unchanged ho hdev hwhole (by omega) (by omega) h

/-! ## 2. Failing cleanly -/

/-- **A write that fails leaves the file as it was**: its size, its bytes, and the number of blocks
    on the freelist, which held `st`. -/
def FailsClean (d : T) (i : Inode) (st : List UInt32) (offset : UInt32) (src : List UInt8) : Prop :=
  ∀ e, (write src offset (d, i)).1 = .err e →
    (write src offset (d, i)).2.2.size = i.size ∧
    (∀ p, p < i.size.toNat →
      fileByte (sectors i.device (write src offset (d, i)).2.1) (write src offset (d, i)).2.2 p =
        fileByte (sectors i.device d) i p) ∧
    ∃ st', Freelist (sectors i.device (write src offset (d, i)).2.1) st' ∧ st'.length = st.length

variable {d : T} {offset : UInt32} {src : List UInt8}

theorem failsClean_of_unchanged (hfl : Freelist (sectors i.device d) st)
    (h : Ends (fileView (T := T) i.device) (write src offset) (sectors i.device d, i)
      (SameOnError (sectors i.device d) i)) : FailsClean d i st offset src := by
  intro e herr
  obtain ⟨hsec, hinode⟩ := Prod.mk.inj (h (d, i) rfl e herr)
  have hj : (write src offset (d, i)).2.2 = i := hinode
  have hd : sectors i.device (write src offset (d, i)).2.1 = sectors i.device d := hsec
  rw [hj, hd]
  exact ⟨rfl, fun _ _ => rfl, st, hfl, rfl⟩

section OutOfBlocks

variable (ho : Own (sectors i.device d) i st) (ht : i.type_ ≠ .unused)
  (h : RunsOut i offset.toNat src.length st)

include ho ht h

/-- The blocks that were free are no longer. -/
theorem FailsClean.no_free (hclean : FailsClean d i st offset src) : st = [] := by
  obtain ⟨g, j, hg, hx, _⟩ := write_exhausted (T := T) ho rfl ht h
  obtain ⟨herr, hstate⟩ := hg (d, i) rfl
  have hd : sectors i.device (write src offset (d, i)).2.1 = g := congrArg Prod.fst hstate
  obtain ⟨_, _, st', hfl, hlen⟩ := hclean _ herr
  rw [hd] at hfl
  have hnil : st' = [] := hfl.unique hx.freelist
  rw [hnil] at hlen
  exact List.length_eq_zero_iff.mp hlen.symm

/-- The byte at the offset is the first one of the source. -/
theorem FailsClean.first_byte (hclean : FailsClean d i st offset src)
    (hoff : offset.toNat < i.size.toNat) :
    src[0]? = fileByte (sectors i.device d) i offset.toNat := by
  obtain ⟨g, j, hg, _, hfirst⟩ := write_exhausted (T := T) ho rfl ht h
  obtain ⟨herr, hstate⟩ := hg (d, i) rfl
  obtain ⟨hsec, hinode⟩ := Prod.mk.inj hstate
  have hd : sectors i.device (write src offset (d, i)).2.1 = g := hsec
  have hj : (write src offset (d, i)).2.2 = j := hinode
  have hbyte := (hclean _ herr).2.1 offset.toNat hoff
  have hmore := h.goesOn
  rw [hd, hj, hfirst _ rfl, Sector.getElem?_patch _ _ _ (by omega), if_pos (by omega),
    Nat.sub_self] at hbyte
  exact hbyte

/-- An append that finds no free block changes no byte below the size. -/
theorem failsClean_append (hwhole : i.Whole) (hnil : st = []) (hend : offset = i.size) :
    FailsClean d i st offset src := by
  intro e _
  obtain ⟨g, j, hg, hx, hfirst⟩ := write_exhausted (T := T) ho rfl ht h
  obtain ⟨_, hstate⟩ := hg (d, i) rfl
  obtain ⟨hsec, hinode⟩ := Prod.mk.inj hstate
  have hd : sectors i.device (write src offset (d, i)).2.1 = g := hsec
  have hj : (write src offset (d, i)).2.2 = j := hinode
  rw [hd, hj]
  refine ⟨hx.size, ?_, [], hx.freelist, by rw [hnil]⟩
  intro p hp
  have hlt : p < offset.toNat := by rwa [hend]
  by_cases hblock : p / 512 = offset.toNat / 512
  · rw [hfirst p hblock, Sector.getElem?_patch _ _ _ (by omega), if_neg (by omega), ← hblock]
    exact getElem?_blockOf (hwhole.maps hp)
  · exact hx.below p (by omega)

end OutOfBlocks

end Running

/-- **When a failed write leaves the file as it was.** On a fault-free disk with a well-formed
    freelist, for a file or directory that owns its blocks, mapped up to its size, and any offset:
    every write of `n` bytes that fails leaves the size, the bytes and the number of free blocks as
    they were, exactly if it does not run out of blocks in its chunk loop, or the freelist was empty
    before and the write appends. -/
theorem write_fails_clean_iff {T : Type} [Disk T] [FaultFree T] (d : T) (i : Inode)
    (st : List UInt32) (offset : UInt32) (n : Nat) (htype : i.type_ = .file ∨ i.type_ = .directory)
    (hown : Own (sectors i.device d) i st) (hwhole : i.Whole) (hn : n < 2 ^ 32) :
    (∀ src : List UInt8, src.length = n → FailsClean d i st offset src) ↔
      (RunsOut i offset.toNat n st → st = [] ∧ offset = i.size) := by
  have hunused := InodeType.ne_unused htype
  constructor
  · intro hclean hout
    have hlen : ∀ x : UInt8, (List.replicate n x).length = n := fun _ => List.length_replicate
    have hrun : ∀ x : UInt8, RunsOut i offset.toNat (List.replicate n x).length st := by
      intro x
      rw [hlen]
      exact hout
    refine ⟨(hclean _ (hlen 0)).no_free hown hunused (hrun 0), UInt32.toNat.inj ?_⟩
    by_contra hne
    have hoff : offset.toNat < i.size.toNat := Nat.lt_of_le_of_ne hout.start hne
    -- a source that starts with another byte than the one at the offset
    obtain ⟨x, hx⟩ := fileByte_isSome (f := sectors i.device d) (hwhole.maps hoff)
    have hbyte := (hclean _ (hlen (x + 1))).first_byte hown hunused (hrun (x + 1)) hoff
    have hpos := hout.goesOn
    rw [hx, List.getElem?_replicate, if_pos (by omega)] at hbyte
    simp at hbyte
  · intro h src hlen
    subst hlen
    by_cases hout : RunsOut i offset.toNat src.length st
    · obtain ⟨hnil, hend⟩ := h hout
      exact failsClean_append hown hunused hout hwhole hnil hend
    · exact failsClean_of_unchanged hown.freelist
        (write_unchanged hown rfl hunused hwhole hn hout)

/-- An append of 1113 bytes to a file of 600 runs out of blocks behind the second one, of which it
    has written the rest. Nothing below the size has changed. -/
theorem write_fails_clean_append :
    (write (List.replicate 1113 1) 600 (blankDisk, twoBlockInode)).1 = .err .exhaustedBlocks ∧
    FailsClean blankDisk twoBlockInode [] 600 (List.replicate 1113 1) := by
  refine ⟨by decide +kernel, ?_⟩
  refine (write_fails_clean_iff blankDisk twoBlockInode [] 600 1113 (Or.inl rfl) blankDisk_own
    twoBlockInode_whole (by decide)).mpr ?_ _ List.length_replicate
  intro _
  exact ⟨rfl, rfl⟩

/-- **A write that fails has overwritten the file.** Of 1025 bytes at the start of a file of two
    blocks there is no room for the last one; the others are written before that is noticed. -/
theorem failed_write_overwrites :
    (write (List.replicate 1025 1) 0 (blankDisk, twoBlockInode)).1 = .err .exhaustedBlocks ∧
    fileByte (sectors 1 blankDisk) twoBlockInode 0 = some 0 ∧
    fileByte (sectors 1 (write (List.replicate 1025 1) 0 (blankDisk, twoBlockInode)).2.1)
      (write (List.replicate 1025 1) 0 (blankDisk, twoBlockInode)).2.2 0 = some 1 := by
  decide +kernel

end Sprocket.SimpleFs
