/-
  File:      Sprocket/SimpleFs/ImageTool.lean
  Subject:   THE IMAGE TOOL (`bin.rs`): `main` formats an image and copies files into it.

  `write_file` stores a file (`createFile`), reads it back (`verifyFile`) and gives it a name in the
  root directory (`linkFile`). Every error of these calls is unwrapped, so the tool either copies
  all files or panics. The name is the path, cut to `DIRNAME_SIZE` bytes; the slot of the entry may
  cut it further, and a later file is compared with the names as they are kept.

  * `Image` -- what holds after the files `done`: their inodes are 1, 2, ..., their entries follow
    `.` and `..`, and the blocks on the freelist are exactly the ones nothing has taken;
  * `writeFile_ends` -- one more file: it is copied if the image accepts it, else the tool panics;
  * `mkfs_image` -- a fresh image;
  * `main_ok_iff` -- the tool returns exactly when every file is accepted in its turn.
-/
import Mathlib.Data.List.Nodup
import Sprocket.SimpleFs.FileRuns
import Sprocket.SimpleFs.FailedWrites
import Sprocket.SimpleFs.Mkfs

namespace Sprocket.SimpleFs

open Bytes Prog

/-! ## 1. The code -/

/-- A file of the host: the path as the tool is given it, and what `read_to_end` returns. -/
structure HostFile where
  path : List UInt8
  bytes : List UInt8
  deriving DecidableEq, Repr

/-- The name `write_file` gives the file. -/
def HostFile.name (file : HostFile) : List UInt8 := file.path.take dirnameSize

section Code

variable {T : Type} [Disk T]

/-- The first part of `write_file`: the file is stored. -/
def createFile (buf : List UInt8) : Prog T FsError UInt32 := do
  let inode := freshInode .file rootDev
  let inum ← unwrap (allocInode rootDev inode)
  require (inum ≠ rootInum)
  let r ← withLocal inode (unwrap (write buf 0))
  unwrap (updateInode inum r.2)
  pure inum

/-- The last part: an entry of the root directory. -/
def linkFile (name : List UInt8) (inum : UInt32) : Prog T FsError Unit := do
  let root ← unwrap (readInode rootDev rootInum)
  let r ← withLocal root (unwrap (dirAdd name inum))
  updateInode rootInum r.2

def writeFile (file : HostFile) : Prog T FsError Unit := do
  let inum ← createFile file.bytes
  verifyFile rootDev inum file.bytes
  linkFile file.name inum

/-- `main`, after the image is opened. -/
def main (files : List HostFile) : Prog T FsError Unit := do
  unwrap mkfs
  forEach (fun file => unwrap (writeFile file)) files

end Code

/-! ## 2. What a new file takes -/

/-- A new file needs a block for each 512 bytes begun. -/
theorem needed_fresh (t : InodeType) (dev : UInt32) {lo hi : Nat} (hhi : hi ≤ 32768) :
    needed (freshInode t dev) lo hi = (hi - lo + 511) / 512 := by
  fun_induction chunkBounds lo hi with
  | case1 lo h ih =>
    have hone : toMap (freshInode t dev) (lo / 512) = 1 := by
      have hlt : lo / 512 < 64 := by omega
      refine if_pos ?_
      rw [freshInode, Vector.getElem?_replicate, if_pos hlt]
    rw [needed_cons _ h, hone]
    simp only [blockSize] at ih
    omega
  | case2 lo h =>
    rw [needed_nil _ (by omega)]
    omega

theorem toMap_fresh (t : InodeType) (dev : UInt32) : toMap (freshInode t dev) 0 = 1 := by
  refine if_pos ?_
  rw [freshInode, Vector.getElem?_replicate, if_pos (by decide)]

/-- The blocks of a new file, as `blocksFor` counts them. -/
theorem blocksFor_eq (dev : UInt32) {bytes : List UInt8} (hlen : bytes.length ≤ 32768) :
    toMap (freshInode .file dev) 0 + needed (freshInode .file dev) 512 bytes.length =
      blocksFor bytes := by
  rw [toMap_fresh, needed_fresh _ _ hlen, blocksFor]
  omega

section Create

variable {T : Type} [Disk T] [FaultFree T] {f : Sectors} {st : List UInt32}

/-- A file that is too large, or too large for the blocks that are free, is not written. -/
theorem write_fresh_refused (hwf : WellFormed f st) {bytes : List UInt8}
    (hlen : bytes.length < 2 ^ 32)
    (hno : 32768 < bytes.length ∨ st.length < blocksFor bytes) :
    ∃ e w, Gives (fileView (T := T) rootDev) (write bytes 0) (f, freshInode .file rootDev)
      (.err e) w := by
  have hown := hwf.own_fresh .file rootDev
  by_cases hlarge : 32768 < bytes.length
  · exact ⟨.writeTooLarge, _, write_tooLarge (freshInode_file_used rootDev) (by simpa using hlen)
      (by simpa using hlarge)⟩
  have hle : bytes.length ≤ 32768 := Nat.le_of_not_lt hlarge
  have hshort : st.length < blocksFor bytes := hno.resolve_left hlarge
  by_cases hnil : st = []
  · refine ⟨.exhaustedBlocks, (f, freshInode .file rootDev), ?_⟩
    refine write_gives (freshInode_file_used rootDev) (Nat.zero_le _) (by simpa using hle) ?_
    unfold writeBytes
    have hb : (freshInode .file rootDev).blocks[0]? = some 0 := by
      rw [freshInode, Vector.getElem?_replicate, if_pos (by decide)]
    exact Gives.then_err (bmapOrAlloc_exhausted hb rfl (hnil ▸ hown.freelist))
  · have hpos : 0 < st.length := List.length_pos_of_ne_nil hnil
    have hcost := blocksFor_eq rootDev hle
    have hone := toMap_fresh .file rootDev
    have hruns : RunsOut (freshInode .file rootDev) (0 : UInt32).toNat bytes.length st := by
      refine ⟨Nat.zero_le _, by simpa using hle, ?_, ?_, ?_⟩
      · show 0 + 512 < bytes.length
        unfold blocksFor at hshort
        omega
      · show toMap (freshInode .file rootDev) 0 ≤ st.length
        omega
      · show st.length < toMap (freshInode .file rootDev) 0 +
          needed (freshInode .file rootDev) (0 + 512) bytes.length
        rw [Nat.zero_add]
        omega
    obtain ⟨g, j, hg, _⟩ := write_exhausted (T := T) hown rfl (freshInode_file_used rootDev) hruns
    exact ⟨_, _, hg⟩

/-- **The file `bytes` is stored in slot `k`**, and nothing else has changed but the freelist, which
    has lost the blocks of the file. -/
structure Created (f : Sectors) (st : List UInt32) (k : Nat) (bytes : List UInt8) (g : Sectors)
    (j : Inode) (st' : List UInt32) : Prop where
  wf : WellFormed g st'
  file : OnDisk g rootDev st' (UInt32.ofNat k) bytes j
  suffix : st' <:+ st
  slots : ∀ m, m < 256 → m ≠ k → slot g m = slot f m
  blocks : ∀ b, IsData b → b ∉ st → g b = f b
  gained : ∀ (n : Nat) b, j.blocks[n]? = some b → b ≠ 0 → b ∈ st
  cost : st.length = st'.length + blocksFor bytes

theorem ofNat_ne_root {k : Nat} (hk : k < 256) (hk0 : k ≠ 0) : UInt32.ofNat k ≠ rootInum :=
  ofNat_ne (by omega) (by decide) hk0

/-- **`createFile` stores the file in the first unused slot.** -/
theorem createFile_gives (hwf : WellFormed f st) {bytes : List UInt8}
    (hlen : bytes.length ≤ 32768) {k : Nat} {rest : List Nat} (hk : unusedSlots f = k :: rest)
    (hk0 : k ≠ 0) (hfree : blocksFor bytes ≤ st.length) :
    ∃ g j st', Gives (sectors (T := T) rootDev) (createFile bytes) f (.ok (UInt32.ofNat k)) g ∧
      Created f st k bytes g j st' ∧ unusedSlots g = rest := by
  obtain ⟨hk256, _⟩ := unusedSlots_head hk
  have hkn : (UInt32.ofNat k).toNat = k := toNat_ofNat_lt (by omega)
  have hwf1 := hwf.storeInode hk256 (freshInode .file rootDev)
  have hown1 := hwf1.own_fresh .file rootDev
  obtain ⟨g, j, st', hg, hs⟩ := write_fresh (T := T) rootDev hwf1 hlen hfree
  have hwf2 : WellFormed g st' := hwf1.grew hown1 hs.own hs.grew
  have hdev : j.device = rootDev := hs.grew.device
  have htable : ∀ m, m < 256 → slot g m = slot (storeInode f k (freshInode .file rootDev)) m := by
    intro m hm
    rw [slot, hs.grew.table hown1 (isTable_tableBlock hm), slot]
  refine ⟨storeInode g k j, j, st', ?_, ⟨hwf2.storeInode hk256 j, ?_, hs.grew.suffix, ?_, ?_, ?_,
    ?_⟩, ?_⟩
  · unfold createFile
    refine (allocInode_gives hwf (freshInode_file_used rootDev) hk).unwrap_ok.then ?_
    refine (gives_require (ofNat_ne_root hk256 hk0)).then (hg.unwrap_ok.withLocal_ok.then ?_)
    refine (updateInode_gives hwf2.inodeStart (by omega) hdev).unwrap_ok.then ?_
    rw [hkn]
    exact gives_pure _
  · refine ⟨by omega, ?_, hs.grew.type_, hdev, hlen, hs.size, fun p hp => ?_, hs.mapped,
      hs.own.data, hs.own.used⟩
    · rw [hkn]
      exact slot_storeInode_self g k j
    · rw [fileByte_congr rfl fun b hb h0 => storeInode_data hk256 (hs.own.data _ b hb h0)]
      exact hs.stored p hp
  · intro m hm hmk
    rw [slot_storeInode_other hk256 hm hmk, htable m hm, slot_storeInode_other hk256 hm hmk]
  · intro b hb hst
    rw [storeInode_data hk256 hb, hs.grew.untouched b hb.ne_zero hst
      fun n hn => hb.ne_zero (freshInode_blocks hn), storeInode_data hk256 hb]
  · intro n b hb h0
    cases hs.grew.gained n b hb h0 with
    | inl hfresh => exact absurd (freshInode_blocks hfresh) h0
    | inr hgone => exact hgone.1
  · rw [hs.cost, blocksFor_eq rootDev hlen]
  · rw [unusedSlots_restore hk256 htable hs.grew.type_]
    exact unusedSlots_storeInode hk (freshInode_file_used rootDev)

theorem createFile_panics (hwf : WellFormed f st) {bytes : List UInt8}
    (hlen : bytes.length < 2 ^ 32) {k : Nat} {rest : List Nat} (hk : unusedSlots f = k :: rest)
    (hk0 : k ≠ 0) (hno : 32768 < bytes.length ∨ st.length < blocksFor bytes) :
    ∃ w, Gives (sectors (T := T) rootDev) (createFile bytes) f .panic w := by
  obtain ⟨hk256, _⟩ := unusedSlots_head hk
  obtain ⟨e, w, hw⟩ := write_fresh_refused (T := T)
    (hwf.storeInode hk256 (freshInode .file rootDev)) hlen hno
  refine ⟨w.1, ?_⟩
  unfold createFile
  refine (allocInode_gives hwf (freshInode_file_used rootDev) hk).unwrap_ok.then ?_
  refine (gives_require (ofNat_ne_root hk256 hk0)).then ?_
  exact hw.unwrap_err.withLocal_panic.then_panic

end Create

/-! ## 3. The image after some files -/

/-- The entry of file `k`, as its slot keeps it. -/
def entryAt (k : Nat) (file : HostFile) : Entry :=
  (⟨file.name, UInt32.ofNat (k + 1)⟩ : Entry).cut (k + 2)

/-- The root directory with the files in it. -/
def rootEntries (files : List HostFile) : List Entry := dot :: dotdot :: files.mapIdx entryAt

/-- The data blocks that the root directory and the files have taken. -/
def spent (files : List HostFile) : Nat :=
  dirBlocks (files.length + 2) + (files.map fun file => blocksFor file.bytes).sum

theorem length_rootEntries (files : List HostFile) :
    (rootEntries files).length = files.length + 2 := by
  simp [rootEntries]

theorem rootEntries_snoc (files : List HostFile) (file : HostFile) :
    rootEntries (files ++ [file]) = rootEntries files ++ [entryAt files.length file] := by
  simp [rootEntries, List.mapIdx_concat]

/-- **File `k` is on the image**, in blocks that are not the root directory's. -/
structure Filed (f : Sectors) (root : Inode) (st : List UInt32) (k : Nat) (bytes : List UInt8)
    (i : Inode) : Prop where
  onDisk : OnDisk f rootDev st (UInt32.ofNat (k + 1)) bytes i
  onImage : OnImage i
  apart : ∀ (n m : Nat) b, i.blocks[n]? = some b → b ≠ 0 → root.blocks[m]? ≠ some b

/-- **The image after the files `done`**, with `root` the inode of its root directory and `st` its
    freelist. -/
structure Image (f : Sectors) (root : Inode) (st : List UInt32) (done : List HostFile) : Prop where
  wf : WellFormed f st
  stored : slot f 0 = some root
  dir : DirRep rootDev f root st (rootEntries done)
  unused : unusedSlots f = List.range' (done.length + 1) (255 - done.length)
  free : ∀ b ∈ st, b.toNat < fsSize
  left : st.length + spent done = 743
  onImage : OnImage root
  unmapped : ∀ (n : Nat) b, dirBlocks (done.length + 2) ≤ n → root.blocks[n]? = some b → b = 0
  files : ∀ k file, done[k]? = some file → ∃ i, Filed f root st k file.bytes i

/-- A directory stays as it is when its blocks are left alone. -/
theorem DirRep.frame {dev : UInt32} {f g : Sectors} {i : Inode} {st st' : List UInt32}
    {es : List Entry} (h : DirRep dev f i st es) (hfree : Freelist g st') (hst : st' <:+ st)
    (hblocks : ∀ (n : Nat) b, i.blocks[n]? = some b → b ≠ 0 → g b = f b) :
    DirRep dev g i st' es := by
  refine ⟨⟨hfree, fun b hb => h.own.free_data b (hst.subset hb), h.own.data,
    fun n b hb h0 hm => h.own.used n b hb h0 (hst.subset hm), h.own.once⟩, h.type_, h.device,
    h.size, h.room, fun k e he => ?_⟩
  have hs := h.slots k e he
  refine ⟨hs.legal, hs.fits, hs.mapped, fun q hq hfit => ?_⟩
  rw [fileByte_congr rfl fun b hb h0 => hblocks _ b hb h0]
  exact hs.bytes q hq hfit

/-- An inode that takes at most the block it is to map takes no other. -/
theorem Grew.only {f g : Sectors} {i j : Inode} {st st' : List UInt32} {k : Nat}
    (h : Grew f i st g j st') (hj : Own g j st') (hm : j.Maps k)
    (hcost : st.length = st'.length + toMap i k) {n : Nat} (hn : n ≠ k) {b : UInt32}
    (hb : j.blocks[n]? = some b) (h0 : b ≠ 0) : i.blocks[n]? = some b := by
  obtain ⟨taken, rfl⟩ := h.suffix
  have hlen : taken.length = toMap i k := by
    rw [List.length_append] at hcost
    omega
  have hone := toMap_le i k
  -- what was gained is the one block the freelist has lost
  have hgain : ∀ {m : Nat} {c : UInt32}, j.blocks[m]? = some c → c ≠ 0 → i.blocks[m]? ≠ some c →
      taken = [c] := by
    intro m c hc hc0 hnot
    obtain ⟨hin, hout⟩ := (h.gained m c hc hc0).resolve_left hnot
    have hmem : c ∈ taken := (List.mem_append.mp hin).resolve_right hout
    obtain ⟨x, rfl⟩ := List.length_eq_one_iff.mp
      (by have := List.length_pos_of_mem hmem; omega : taken.length = 1)
    rw [List.mem_singleton.mp hmem]
  by_contra hnot
  have htaken := hgain hb h0 hnot
  have hzero : i.blocks[k]? = some 0 := by
    refine blocks_of_toMap ?_
    rw [← hlen, htaken]
    exact Nat.one_pos
  obtain ⟨c, hc, hc0⟩ := hm
  have hsame := hgain hc hc0 (by rw [hzero]; exact fun e => hc0 (Option.some.inj e).symm)
  rw [htaken] at hsame
  obtain rfl := List.singleton_inj.mp hsame
  exact hn (hj.once n k b hb hc h0)

section Step

variable {f g : Sectors} {root j : Inode} {st st' : List UInt32} {done : List HostFile}

theorem Image.length_le (h : Image f root st done) : done.length ≤ 124 := by
  have hroom := h.dir.room
  rw [length_rootEntries] at hroom
  omega

theorem Image.toNat_inum (h : Image f root st done) {k : Nat} (hk : k ≤ done.length) :
    (UInt32.ofNat (k + 1)).toNat = k + 1 := by
  have := h.length_le
  exact toNat_ofNat_lt (by omega)

/-- A file that is created leaves the root directory and the other files as they are. -/
theorem Image.created (h : Image f root st done) {bytes : List UInt8}
    (hc : Created f st (done.length + 1) bytes g j st') :
    slot g 0 = some root ∧ DirRep rootDev g root st' (rootEntries done) ∧
    (∀ k file, done[k]? = some file → ∃ i, Filed g root st' k file.bytes i) ∧
    Filed g root st' done.length bytes j := by
  have hlen := h.length_le
  refine ⟨?_, ?_, ?_, hc.file, ?_, ?_⟩
  · rw [hc.slots 0 (by decide) (by omega)]
    exact h.stored
  · refine h.dir.frame hc.wf.freelist hc.suffix fun n b hb h0 => ?_
    exact hc.blocks b (h.dir.own.data n b hb h0) (h.dir.own.used n b hb h0)
  · intro k file hk
    obtain ⟨i, hi⟩ := h.files k file hk
    have hlt : k < done.length := (List.getElem?_eq_some_iff.mp hk).1
    refine ⟨i, hi.onDisk.frame ?_ (fun n b hb h0 => ?_) hc.suffix, hi.onImage, hi.apart⟩
    · rw [h.toNat_inum (Nat.le_of_lt hlt)]
      exact hc.slots (k + 1) (by omega) (by omega)
    · exact hc.blocks b (hi.onDisk.data n b hb h0) (hi.onDisk.used n b hb h0)
  · intro n b hb
    by_cases h0 : b = 0
    · rw [h0]
      decide
    · exact h.free b (hc.gained n b hb h0)
  · intro n m b hb h0 hroot
    exact h.dir.own.used m b hroot h0 (hc.gained n b hb h0)

/-- A file stays on the image when the root directory takes blocks from the freelist. -/
theorem Filed.linked {root' : Inode} {st'' : List UInt32} {g' : Sectors} {es : List Entry} {k : Nat}
    {bytes : List UInt8} {i : Inode} (h : Filed g root st' k bytes i) (hk : k + 1 < 256)
    (hdir : DirRep rootDev g root st' es) (hgrew : Grew g root st' g' root' st'') :
    Filed (storeInode g' 0 root') root' st'' k bytes i := by
  have hkn : (UInt32.ofNat (k + 1)).toNat = k + 1 := toNat_ofNat_lt (by omega)
  refine ⟨h.onDisk.frame ?_ (fun n b hb h0 => ?_) hgrew.suffix, h.onImage, ?_⟩
  · rw [hkn, slot_storeInode_other (by decide) hk (by omega), slot,
      hgrew.table hdir.own (isTable_tableBlock hk), slot]
  · rw [storeInode_data (by decide) (h.onDisk.data n b hb h0)]
    exact hgrew.untouched b h0 (h.onDisk.used n b hb h0) fun m => h.apart n m b hb h0
  · intro n m b hb h0 hroot
    cases hgrew.gained m b hroot h0 with
    | inl hold => exact h.apart n m b hb h0 hold
    | inr hnew => exact h.onDisk.used n b hb h0 hnew.1

/-- The blocks of the root directory are counted exactly. -/
theorem Image.toMap_eq (h : Image f root st done) (hroom : done.length < 124) :
    toMap root (260 * (done.length + 2) / 512) + dirBlocks (done.length + 2) =
      dirBlocks (done.length + 3) := by
  have hle := h.dir.toMap_le
  rw [length_rootEntries] at hle
  change _ ≤ dirBlocks (done.length + 3) at hle
  have hmono : dirBlocks (done.length + 3) ≤ dirBlocks (done.length + 2) + 1 := by
    unfold dirBlocks
    omega
  by_cases hnew : dirBlocks (done.length + 2) ≤ 260 * (done.length + 2) / 512
  · -- the slot starts a block, which is not mapped yet
    have hlt : 260 * (done.length + 2) / 512 < ndirect := by
      show _ < 64
      omega
    obtain ⟨b, hb⟩ : ∃ b, root.blocks[260 * (done.length + 2) / 512]? = some b :=
      ⟨_, Vector.getElem?_eq_getElem hlt⟩
    have hzero := h.unmapped _ _ hnew hb
    have hone : toMap root (260 * (done.length + 2) / 512) = 1 := by
      refine if_pos ?_
      rw [hb, hzero]
    omega
  · have hsame : dirBlocks (done.length + 3) = dirBlocks (done.length + 2) := by
      unfold dirBlocks at hnew ⊢
      omega
    omega

end Step

/-! ## 4. One more file -/

/-- **The image accepts the file**: it is not too large, the directory has room for an entry, there
    are blocks for both, and no name that is kept so far is the file's. -/
structure Accepts (done : List HostFile) (file : HostFile) : Prop where
  size : file.bytes.length ≤ maxFile * blockSize
  entry : direntSize * (done.length + 3) ≤ maxFile * blockSize
  blocks : spent (done ++ [file]) ≤ dataBlocks.length
  name : file.name ∉ (rootEntries done).map Entry.name

theorem length_dataBlocks : dataBlocks.length = 743 := List.length_range'

theorem spent_snoc (done : List HostFile) (file : HostFile) :
    spent (done ++ [file]) = dirBlocks (done.length + 3) +
      ((done.map fun file => blocksFor file.bytes).sum + blocksFor file.bytes) := by
  rw [spent, List.length_append, List.length_singleton, List.map_append, List.sum_append,
    List.map_singleton, List.sum_singleton]

/-- The entry `write_file` asks for. -/
def askedEntry (done : List HostFile) (file : HostFile) : Entry :=
  ⟨file.name, UInt32.ofNat (done.length + 1)⟩

section Link

variable {T : Type} [Disk T] [FaultFree T] {f g : Sectors} {root j : Inode}
  {st st' : List UInt32} {es : List Entry} {e : Entry}

theorem readRoot_gives (hstart : (bufferToSb (g 0).val).inodeStart = 1)
    (hslot : slot g 0 = some root) :
    Gives (sectors (T := T) rootDev) (readInode rootDev rootInum) g (.ok root) g :=
  readInode_gives hstart (by decide) hslot

/-- `linkFile` with a new name and room for it. -/
theorem linkFile_gives (hwf : WellFormed g st') (hslot : slot g 0 = some root)
    (hdir : DirRep rootDev g root st' es) (he : e.Legal) (hnew : e.name ∉ es.map Entry.name)
    (hroom : 260 * (es.length + 1) ≤ 32768)
    (hfree : toMap root (260 * es.length / 512) ≤ st'.length) :
    ∃ g' root' st'', Gives (sectors (T := T) rootDev) (linkFile e.name e.target) g (.ok ())
        (storeInode g' 0 root') ∧
      DirRep rootDev g' root' st'' (es ++ [e.cut es.length]) ∧ Grew g root st' g' root' st'' ∧
      st'.length = st''.length + toMap root (260 * es.length / 512) := by
  obtain ⟨g', root', st'', hg, hrep, hgrew, hcost⟩ := dirAdd_append (T := T) hdir he
    (findEntry_none 0 hnew) hroom hfree
  have hwf' := hwf.grew hdir.own hrep.own hgrew
  refine ⟨g', root', st'', ?_, hrep, hgrew, hcost⟩
  unfold linkFile
  refine (readRoot_gives hwf.inodeStart hslot).unwrap_ok.then ?_
  refine hg.unwrap_ok.withLocal_ok.then ?_
  exact updateInode_gives hwf'.inodeStart (by decide) hrep.device

/-- `linkFile` with a name that is there, or no room. -/
theorem linkFile_panics (hwf : WellFormed g st') (hslot : slot g 0 = some root)
    (hdir : DirRep rootDev g root st' es) (he : e.Legal)
    (hno : e.name ∈ es.map Entry.name ∨ 32768 < 260 * (es.length + 1) ∨
      st'.length < toMap root (260 * es.length / 512)) :
    ∃ w, Gives (sectors (T := T) rootDev) (linkFile e.name e.target) g .panic w := by
  obtain ⟨err, herr⟩ : ∃ err, Gives (fileView (T := T) rootDev) (dirAdd e.name e.target) (g, root)
      (.err err) (g, root) := by
    by_cases hold : e.name ∈ es.map Entry.name
    · obtain ⟨r, hr⟩ := findEntry_isSome 0 hold
      exact ⟨_, dirAdd_exists hdir hr⟩
    · exact dirAdd_refused hdir he (findEntry_none 0 hold) (hno.resolve_left hold)
  refine ⟨g, ?_⟩
  unfold linkFile
  refine (readRoot_gives hwf.inodeStart hslot).unwrap_ok.then ?_
  exact herr.unwrap_err.withLocal_panic.then_panic

end Link

section Write

variable {T : Type} [Disk T] [FaultFree T] {f : Sectors} {root : Inode} {st : List UInt32}
  {done : List HostFile} {file : HostFile}

theorem askedEntry_legal (h : Image f root st done) (hnul : 0 ∉ file.path) :
    (askedEntry done file).Legal := by
  refine ⟨List.length_take_le _ _, fun hm => hnul (List.mem_of_mem_take hm), fun e => ?_⟩
  have e' := congrArg UInt32.toNat e
  have hlen := h.length_le
  rw [askedEntry, h.toNat_inum (Nat.le_refl _)] at e'
  have hmax : unusedInum.toNat = 4294967295 := rfl
  omega

/-- The next file goes to the next slot. -/
theorem Image.unused_cons (h : Image f root st done) :
    unusedSlots f = (done.length + 1) :: List.range' (done.length + 2) (254 - done.length) := by
  have hlen := h.length_le
  have hsucc : 255 - done.length = 254 - done.length + 1 := by omega
  rw [h.unused, hsucc, List.range'_succ]

/-- The new entry of the directory leaves the inode table as it is, but for the directory's own
    slot. -/
theorem unusedSlots_linked {g g' : Sectors} {root' : Inode} {st' st'' : List UInt32}
    (hslot : slot g 0 = some root) (hown : Own g root st') (hgrew : Grew g root st' g' root' st'') :
    unusedSlots (storeInode g' 0 root') = unusedSlots g := by
  refine unusedSlots_congr fun m hm => ?_
  by_cases hm0 : m = 0
  · subst hm0
    rw [isUnused_eq (slot_storeInode_self g' 0 root'), isUnused_eq hslot, hgrew.type_]
  · rw [isUnused, slot_storeInode_other (by decide) hm hm0, slot,
      hgrew.table hown (isTable_tableBlock hm)]
    rfl

/-- **The image with one more file**: what is left of it once the entry is in the directory. -/
theorem Image.linked (h : Image f root st done) {g g' : Sectors} {j root' : Inode}
    {st₁ st₂ : List UInt32} (hc : Created f st (done.length + 1) file.bytes g j st₁)
    (hunused : unusedSlots g = List.range' (done.length + 2) (254 - done.length))
    (hrep : DirRep rootDev g' root' st₂ (rootEntries done ++ [entryAt done.length file]))
    (hgrew : Grew g root st₁ g' root' st₂) (hroom : done.length < 124)
    (hcost : st₁.length = st₂.length + toMap root (260 * (done.length + 2) / 512)) :
    Image (storeInode g' 0 root') root' st₂ (done ++ [file]) := by
  obtain ⟨hslot, hdir, hfiles, hfile⟩ := h.created hc
  have hes : (rootEntries done).length = done.length + 2 := length_rootEntries done
  have hsuffix : st₂ <:+ st := hgrew.suffix.trans hc.suffix
  have hlen : (done ++ [file]).length = done.length + 1 := List.length_append
  refine ⟨(hc.wf.grew hdir.own hrep.own hgrew).storeInode (by decide) root',
    slot_storeInode_self g' 0 root', ?_, ?_, fun b hb => h.free b (hsuffix.subset hb), ?_, ?_, ?_,
    ?_⟩
  · rw [rootEntries_snoc]
    exact hrep.storeInode (by decide) root'
  · rw [unusedSlots_linked hslot hdir.own hgrew, hunused, hlen]
    congr 1
    omega
  · have hleft := h.left
    have hfree := hc.cost
    have hcount := h.toMap_eq hroom
    rw [spent_snoc]
    rw [spent] at hleft
    omega
  · intro n b hb
    by_cases h0 : b = 0
    · rw [h0]
      decide
    · cases hgrew.gained n b hb h0 with
      | inl hold => exact h.onImage n b hold
      | inr hnew => exact h.free b (hc.suffix.subset hnew.1)
  · -- only the block of the new entry can be new
    intro n b hn hb
    by_contra h0
    rw [hlen] at hn
    have hdb : dirBlocks (done.length + 1 + 2) = 260 * (done.length + 2) / 512 + 1 := by
      unfold dirBlocks
      omega
    have hle : dirBlocks (done.length + 2) ≤ dirBlocks (done.length + 1 + 2) :=
      dirBlocks_mono (by omega)
    have hmaps : root'.Maps (260 * (done.length + 2) / 512) := by
      refine (hrep.slots (done.length + 2) (entryAt done.length file) ?_).mapped
      rw [List.getElem?_append_right (Nat.le_of_eq hes), hes, Nat.sub_self]
      rfl
    exact h0 (h.unmapped n b (by omega) (hgrew.only hrep.own hmaps hcost (by omega) hb h0))
  · intro k file' hk
    rw [List.getElem?_append] at hk
    split at hk
    · obtain ⟨i, hi⟩ := hfiles k file' hk
      exact ⟨i, hi.linked (by omega) hdir hgrew⟩
    · have hlast : k - done.length < 1 := (List.getElem?_eq_some_iff.mp hk).1
      have hkd : k = done.length := by omega
      subst hkd
      rw [Nat.sub_self] at hk
      obtain rfl := Option.some.inj hk
      exact ⟨j, hfile.linked (by omega) hdir hgrew⟩

/-- **A file that is accepted is copied.** -/
theorem writeFile_accepted (h : Image f root st done) (hnul : 0 ∉ file.path)
    (ha : Accepts done file) :
    ∃ g root' st', Gives (sectors (T := T) rootDev) (writeFile file) f (.ok ()) g ∧
      Image g root' st' (done ++ [file]) := by
  have hleft := h.left
  have hblocks := ha.blocks
  have hentry : 260 * (done.length + 3) ≤ 32768 := ha.entry
  have hroom : done.length < 124 := by omega
  have hcount := h.toMap_eq hroom
  rw [spent_snoc, length_dataBlocks] at hblocks
  rw [spent] at hleft
  obtain ⟨g, j, st₁, hcreate, hc, hunused⟩ := createFile_gives (T := T) h.wf ha.size h.unused_cons
    (by omega) (by omega)
  obtain ⟨hslot, hdir, _, hfile⟩ := h.created hc
  have hfree := hc.cost
  have hes : (rootEntries done).length = done.length + 2 := length_rootEntries done
  obtain ⟨g', root', st₂, hlink, hrep, hgrew, hcost⟩ := linkFile_gives (T := T) hc.wf hslot hdir
    (askedEntry_legal h hnul) ha.name (by omega) (by rw [hes]; omega)
  rw [hes] at hcost hrep
  refine ⟨storeInode g' 0 root', root', st₂, ?_, h.linked hc hunused hrep hgrew hroom hcost⟩
  unfold writeFile
  exact hcreate.then ((hfile.onDisk.verify hc.wf.inodeStart).then hlink)

/-- **A file that is not accepted makes the tool panic.** -/
theorem writeFile_refused (h : Image f root st done) (hnul : 0 ∉ file.path)
    (hbytes : file.bytes.length < 2 ^ 32) (hno : ¬ Accepts done file) :
    ∃ w, Gives (sectors (T := T) rootDev) (writeFile file) f .panic w := by
  have hlen := h.length_le
  have hleft := h.left
  rw [spent] at hleft
  by_cases hstored : file.bytes.length ≤ 32768 ∧ blocksFor file.bytes ≤ st.length
  · obtain ⟨g, j, st₁, hcreate, hc, _⟩ := createFile_gives (T := T) h.wf hstored.1 h.unused_cons
      (by omega) hstored.2
    obtain ⟨hslot, hdir, _, hfile⟩ := h.created hc
    have hcost := hc.cost
    have hes : (rootEntries done).length = done.length + 2 := length_rootEntries done
    obtain ⟨w, hw⟩ := linkFile_panics (T := T) hc.wf hslot hdir (askedEntry_legal h hnul) (by
      by_contra hfine
      rw [not_or, not_or, hes] at hfine
      obtain ⟨hname, hentry, hblock⟩ := hfine
      have hroom : done.length < 124 := by omega
      have hcount := h.toMap_eq hroom
      refine hno ⟨hstored.1, ?_, ?_, hname⟩
      · show 260 * (done.length + 3) ≤ 32768
        omega
      · rw [spent_snoc, length_dataBlocks]
        omega)
    refine ⟨w, ?_⟩
    unfold writeFile
    exact hcreate.then ((hfile.onDisk.verify hc.wf.inodeStart).then hw)
  · obtain ⟨w, hw⟩ := createFile_panics (T := T) h.wf hbytes h.unused_cons (by omega) (by omega)
    refine ⟨w, ?_⟩
    unfold writeFile
    exact hw.then_panic

end Write

/-! ## 5. A fresh image -/

section Fresh

variable {T : Type} [Disk T] [FaultFree T] {f : Sectors} {st : List UInt32}

/-- The freelist of a formatted disk has all data blocks but one. -/
theorem Formatted.length {root : Inode} {b : UInt32} (h : Formatted f root b st)
    (hb : 257 ≤ b.toNat ∧ b.toNat < fsSize) : st.length = 742 := by
  have hnd : (dataStack dataBlocks).Nodup := by
    rw [dataStack, List.nodup_reverse]
    refine List.Nodup.map_on (fun x hx y hy e => ?_) List.nodup_range'
    have hx' := mem_dataBlocks.mp hx
    have hy' := mem_dataBlocks.mp hy
    by_contra hne
    exact ofNat_ne (by omega) (by omega) hne e
  have hmem : b ∈ dataStack dataBlocks := (mem_dataStack_dataBlocks b).mpr hb
  have hperm : st.Perm ((dataStack dataBlocks).erase b) := by
    refine (List.perm_ext_iff_of_nodup h.freelist.nodup (hnd.erase b)).mpr fun a => ?_
    rw [h.free, hnd.mem_erase_iff, mem_dataStack_dataBlocks]
    exact and_comm
  rw [hperm.length_eq, List.length_erase_of_mem hmem, dataStack, List.length_reverse,
    List.length_map, length_dataBlocks]

/-- **`mkfs` makes a fresh image** of a disk whose table slots are all vacated. -/
theorem mkfs_image (hdisk : sectors (T := T) 0 = sectors rootDev)
    (hfit : tableStart f + 255 < 2 ^ 32) (hall : ∀ k, k < 256 → Vacated f k) :
    Ends (sectors (T := T) rootDev) mkfs f fun o g =>
      o = .ok () ∧ ∃ root st, Image g root st [] := by
  intro d hd
  obtain ⟨hok, hslots, root, b, st, hform, hrep, hon⟩ :=
    (mkfs_ends hdisk hfit d hd).1 (hall 0 (by decide))
  have hb0 : b ≠ 0 := by
    obtain ⟨c, hc, hc0⟩ := (hrep.slots 0 dot rfl).mapped
    rw [hform.block] at hc
    exact Option.some.inj hc ▸ hc0
  have hb : 257 ≤ b.toNat ∧ b.toNat < fsSize := ⟨hrep.own.data 0 b hform.block hb0,
    hon 0 b hform.block⟩
  have hunused : ∀ k, 1 ≤ k → k < 256 →
      ∃ i, slot (sectors rootDev (mkfs d).2) k = some i ∧ i.type_ = .unused := fun k hk hk' =>
    isUnused_iff.mp ((hslots k hk hk').mpr (hall k hk'))
  refine ⟨hok, root, st, ⟨hform.inodeStart, fun c hc => ?_, hform.freelist,
    hrep.own.free_data⟩, hform.stored, hrep, ?_, fun a ha => ((hform.free a).mp ha).1.2, ?_, hon,
    ?_, fun k file hk => ?_⟩
  · obtain ⟨k, hk, rfl⟩ := hc.eq_tableBlock
    rcases Nat.eq_zero_or_pos k with rfl | hpos
    · exact ⟨root, hform.stored⟩
    · obtain ⟨i, hi, _⟩ := hunused k hpos hk
      exact ⟨i, hi⟩
  · have hused : isUnused (sectors rootDev (mkfs d).2) 0 = false := by
      have h := isUnused_eq hform.stored
      rw [hform.type_] at h
      exact h
    rw [unusedSlots, range_slots, List.filter_cons, hused]
    refine List.filter_eq_self.mpr fun k hk => ?_
    rw [List.mem_range'_1] at hk
    exact isUnused_iff.mpr (hunused k hk.1 (by omega))
  · rw [hform.length hb]
    rfl
  · -- a second block would be a data block of the image that is neither free nor the first
    intro n c hn hc
    by_contra h0
    have hn1 : 1 ≤ n := hn
    have hfree := hrep.own.used n c hc h0
    rw [hform.free] at hfree
    have hcb : c = b := by
      by_contra hne
      exact hfree ⟨⟨hrep.own.data n c hc h0, hon n c hc⟩, hne⟩
    have hzero := hrep.own.once n 0 b (hcb ▸ hc) hform.block hb0
    omega
  · cases hk

end Fresh

/-! ## 6. The whole tool -/

section Whole

variable {T : Type} [Disk T] [FaultFree T]

/-- Every file is accepted in its turn, after the files `done`. -/
def AllAccepted (done : List HostFile) : List HostFile → Prop
  | [] => True
  | file :: rest => Accepts done file ∧ AllAccepted (done ++ [file]) rest

/-- The loop of `main`: it ends with all files on the image, or panics. -/
theorem writeFiles_ends : ∀ (files : List HostFile) {f : Sectors} {root : Inode} {st : List UInt32}
    {done : List HostFile}, Image f root st done →
    (∀ file ∈ files, 0 ∉ file.path ∧ file.bytes.length < 2 ^ 32) →
    Ends (sectors (T := T) rootDev)
      (forEach (fun file => unwrap (writeFile file)) files : Prog T FsError Unit) f fun o g =>
      (AllAccepted done files → o = .ok () ∧ ∃ root st, Image g root st (done ++ files)) ∧
      (¬ AllAccepted done files → o = .panic)
  | [], f, root, st, done, h, _ => by
      refine ends_pure ⟨fun _ => ⟨rfl, root, st, ?_⟩, fun hno => absurd trivial hno⟩
      rw [List.append_nil]
      exact h
  | file :: rest, f, root, st, done, h, hhost => by
      obtain ⟨hnul, hbytes⟩ := hhost file List.mem_cons_self
      rw [forEach]
      by_cases ha : Accepts done file
      · obtain ⟨g, root', st', hg, himage⟩ := writeFile_accepted (T := T) h hnul ha
        refine hg.unwrap_ok.then (ends_mono (writeFiles_ends rest himage
          fun file' hf => hhost file' (List.mem_cons_of_mem file hf)) fun o w hw => ?_)
        rw [List.append_assoc] at hw
        exact ⟨fun hall => hw.1 hall.2, fun hno => hw.2 fun hrest => hno ⟨ha, hrest⟩⟩
      · obtain ⟨w, hw⟩ := writeFile_refused (T := T) h hnul hbytes ha
        exact hw.unwrap_panic.then_panic.ends ⟨fun hall => absurd hall.1 ha, fun _ => rfl⟩

/-- **The files fit an image**: none is too large, the directory has room for their entries and the
    image for their blocks, and no name is one that is kept already when its turn comes. -/
structure Fits (files : List HostFile) : Prop where
  size : ∀ file ∈ files, file.bytes.length ≤ maxFile * blockSize
  entries : direntSize * (files.length + 2) ≤ maxFile * blockSize
  blocks : spent files ≤ dataBlocks.length
  names : ∀ pre file post, files = pre ++ file :: post →
    file.name ∉ (rootEntries pre).map Entry.name

/-- More files take no fewer blocks. -/
theorem spent_le_append (pre post : List HostFile) : spent pre ≤ spent (pre ++ post) := by
  unfold spent
  have hmono : dirBlocks (pre.length + 2) ≤ dirBlocks ((pre ++ post).length + 2) :=
    dirBlocks_mono (by rw [List.length_append]; omega)
  rw [List.map_append, List.sum_append]
  omega

theorem allAccepted_iff : ∀ (files done : List HostFile),
    AllAccepted done files ↔
      ∀ pre file post, files = pre ++ file :: post → Accepts (done ++ pre) file
  | [], done => by
      refine iff_of_true trivial fun pre file post h => ?_
      exact absurd h (by simp)
  | file :: rest, done => by
      rw [AllAccepted, allAccepted_iff rest (done ++ [file])]
      constructor
      · rintro ⟨hfirst, hrest⟩ pre file' post h
        cases pre with
        | nil =>
          obtain ⟨rfl, _⟩ := List.cons.inj h
          rw [List.append_nil]
          exact hfirst
        | cons x pre =>
          obtain ⟨rfl, h'⟩ := List.cons.inj h
          have := hrest pre file' post h'
          rwa [List.append_assoc] at this
      · intro h
        refine ⟨by simpa using h [] file rest rfl, fun pre file' post hsplit => ?_⟩
        have := h (file :: pre) file' post (by rw [hsplit]; rfl)
        rwa [List.append_assoc]

/-- The three limits grow with the files, so it is enough to check them at the end. -/
theorem fits_iff_allAccepted (files : List HostFile) : Fits files ↔ AllAccepted [] files := by
  rw [allAccepted_iff]
  constructor
  · intro h pre file post hsplit
    have hlen : files.length = pre.length + (post.length + 1) := by
      rw [hsplit, List.length_append, List.length_cons]
    have hentries : 260 * (files.length + 2) ≤ 32768 := h.entries
    refine ⟨h.size file (by rw [hsplit]; simp), ?_, ?_, h.names pre file post hsplit⟩
    · show 260 * (pre.length + 3) ≤ 32768
      omega
    · refine Nat.le_trans (spent_le_append (pre ++ [file]) post) ?_
      rw [List.append_assoc, List.singleton_append, ← hsplit]
      exact h.blocks
  · intro h
    -- the limits are those of the last file
    have hlast : ∀ pre last, files = pre ++ [last] → Accepts pre last := fun pre last e =>
      h pre last [] e
    refine ⟨fun file hf => ?_, ?_, ?_, fun pre file post hsplit => (h pre file post hsplit).name⟩
    · obtain ⟨pre, post, hsplit⟩ := List.append_of_mem hf
      exact (h pre file post hsplit).size
    · rcases List.eq_nil_or_concat' files with hnil | ⟨pre, last, hsplit⟩
      · rw [hnil]
        decide
      · rw [hsplit, List.length_append]
        exact (hlast pre last hsplit).entry
    · rcases List.eq_nil_or_concat' files with hnil | ⟨pre, last, hsplit⟩
      · rw [hnil, length_dataBlocks]
        decide
      · rw [hsplit]
        exact (hlast pre last hsplit).blocks

/-- What `main` leaves, and how it ends. -/
theorem main_ends {f : Sectors} (hdisk : sectors (T := T) 0 = sectors rootDev)
    (hfit : tableStart f + 255 < 2 ^ 32) (hall : ∀ k, k < 256 → Vacated f k)
    {files : List HostFile} (hhost : ∀ file ∈ files, 0 ∉ file.path ∧ file.bytes.length < 2 ^ 32) :
    Ends (sectors (T := T) rootDev) (main files : Prog T FsError Unit) f fun o g =>
      (Fits files → o = .ok () ∧ ∃ root st, Image g root st files) ∧
      (¬ Fits files → o = .panic) := by
  rw [fits_iff_allAccepted]
  unfold main
  refine ends_bind (ends_unwrap (ends_mono (mkfs_image hdisk hfit hall) ?_))
  rintro o g ⟨rfl, root, st, himage⟩
  exact writeFiles_ends files himage hhost

/-- **The tool copies all files exactly when they fit, and panics otherwise.** Device numbers 0 and
    `ROOT_DEV` name the image; the old table start does not overflow, and every slot of the new
    inode table is vacated by `mkfs`. A path has no NUL byte, and a file, which is read into a
    vector, is shorter than `2 ^ 32` bytes. -/
theorem main_ok_iff (hD : OneDisk T {0, rootDev}) (d : T)
    (hfit : tableStart (sectors rootDev d) + 255 < 2 ^ 32)
    (hall : ∀ k, k < numInodes → Vacated (sectors rootDev d) k) (files : List HostFile)
    (hhost : ∀ file ∈ files, 0 ∉ file.path ∧ file.bytes.length < 2 ^ 32) :
    ((main files d).1 = .ok () ↔ Fits files) ∧ ((main files d).1 = .panic ↔ ¬ Fits files) := by
  have hdisk : sectors (T := T) 0 = sectors rootDev := hD 0 (by simp) rootDev (by simp)
  obtain ⟨hok, hno⟩ := main_ends hdisk hfit hall hhost d rfl
  by_cases h : Fits files
  · have := (hok h).1
    simp [h, this]
  · have := hno h
    simp [h, this]

end Whole

/-- The two files of the build: `README.md` and `index.html`. -/
def twoFiles : List HostFile :=
  [⟨[82, 69, 65, 68, 77, 69, 46, 109, 100], [35, 32, 83]⟩,
    ⟨[105, 110, 100, 101, 120, 46, 104, 116, 109, 108], [60, 104, 49, 62]⟩]

theorem twoFiles_fits : Fits twoFiles := by
  rw [fits_iff_allAccepted]
  refine ⟨⟨by decide, by decide, ?_, by decide⟩, ⟨by decide, by decide, ?_, by decide⟩, trivial⟩
  · rw [length_dataBlocks]
    decide
  · rw [length_dataBlocks]
    decide

/-- On an image of zeros. -/
theorem main_ok_twoFiles : (main twoFiles zeroImage).1 = .ok () :=
  (main_ok_iff (oneDisk_diskFile {0, rootDev}) zeroImage (by decide +kernel)
    (fun k _ => zeroImage_vacated k) twoFiles (by decide)).1.mpr twoFiles_fits

end Sprocket.SimpleFs
