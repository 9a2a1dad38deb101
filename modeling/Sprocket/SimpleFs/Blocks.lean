/-
  File:      Sprocket/SimpleFs/Blocks.lean
  Subject:   WHOSE BLOCK IS IT: an inode, its blocks and the freelist.

  `Own f i st` ties an inode in memory to the disk: the sectors hold the freelist `st`, every
  block the inode maps is a data block, mapped once, and not free. `Grew` is what any amount of
  writing through that inode may do -- take blocks off the top of the freelist, map them, write
  mapped blocks and the superblock's head pointer -- and nothing else; it composes
  (`Grew.trans`), so each step of a method is checked once.

  * `Own.write`, `Own.alloc`, `Own.resize` -- the three steps there are;
  * `bmapOrAlloc_mapped`, `bmapOrAlloc_alloc`, `bmapOrAlloc_exhausted`, `bmapOrAlloc_panics` --
    every way `bmap_or_alloc` ends;
  * `fileByte` -- byte `pos` of a file, through the block map.
-/
import Sprocket.SimpleFs.Freelist

namespace Sprocket.SimpleFs

open Bytes Prog

/-! ## 1. Ownership -/

/-- The blocks behind the superblock and the inode table (`datablocks_start` of `mkfs`). -/
def IsData (b : UInt32) : Prop := 257 ≤ b.toNat

theorem IsData.ne_zero {b : UInt32} (h : IsData b) : b ≠ 0 := by
  rintro rfl
  have h0 : (257 : Nat) ≤ 0 := h
  omega

/-- The blocks of the inode table. -/
def IsTable (b : UInt32) : Prop := 1 ≤ b.toNat ∧ b.toNat ≤ 256

theorem IsTable.ne_zero {b : UInt32} (h : IsTable b) : b ≠ 0 := by
  rintro rfl
  have h0 : (1 : Nat) ≤ 0 := h.1
  omega

theorem IsTable.not_data {b : UInt32} (h : IsTable b) : ¬ IsData b := by
  intro hd
  have h1 : b.toNat ≤ 256 := h.2
  have h2 : 257 ≤ b.toNat := hd
  omega

/-- **A well-formed file system**: the inode table is blocks 1 to 256 and holds inodes, and the
    freelist `st` is made of data blocks. -/
structure WellFormed (f : Sectors) (st : List UInt32) : Prop where
  inodeStart : (bufferToSb (f 0).val).inodeStart = 1
  table : ∀ b, IsTable b → ∃ i, inodeFrom (f b).val 0 = some i
  freelist : Freelist f st
  free_data : ∀ b ∈ st, IsData b

/-- **The inode owns the blocks it maps**: data blocks, each mapped once, none of them free. -/
structure Own (f : Sectors) (i : Inode) (st : List UInt32) : Prop where
  freelist : Freelist f st
  free_data : ∀ b ∈ st, IsData b
  data : ∀ (n : Nat) b, i.blocks[n]? = some b → b ≠ 0 → IsData b
  used : ∀ (n : Nat) b, i.blocks[n]? = some b → b ≠ 0 → b ∉ st
  once : ∀ (n m : Nat) b, i.blocks[n]? = some b → i.blocks[m]? = some b → b ≠ 0 → n = m

/-- What writing through an inode does: from sectors `f`, inode `i` and freelist `st` to `g`,
    `j` and `st'`. -/
structure Grew (f : Sectors) (i : Inode) (st : List UInt32) (g : Sectors) (j : Inode)
    (st' : List UInt32) : Prop where
  type_ : j.type_ = i.type_
  device : j.device = i.device
  suffix : st' <:+ st
  kept : ∀ (n : Nat) b, i.blocks[n]? = some b → b ≠ 0 → j.blocks[n]? = some b
  gained : ∀ (n : Nat) b, j.blocks[n]? = some b → b ≠ 0 → i.blocks[n]? = some b ∨ (b ∈ st ∧ b ∉ st')
  untouched : ∀ s, s ≠ 0 → s ∉ st → (∀ n : Nat, i.blocks[n]? ≠ some s) → g s = f s
  superblock : ∃ addr, bufferToSb (g 0).val = { bufferToSb (f 0).val with freelistStart := addr }

theorem Grew.refl (f : Sectors) (i : Inode) (st : List UInt32) : Grew f i st f i st where
  type_ := rfl
  device := rfl
  suffix := List.suffix_refl st
  kept _ _ h _ := h
  gained _ _ h _ := Or.inl h
  untouched _ _ _ _ := rfl
  superblock := ⟨_, rfl⟩

theorem Grew.trans {f g h : Sectors} {i j k : Inode} {st st' st'' : List UInt32}
    (h1 : Grew f i st g j st') (h2 : Grew g j st' h k st'') : Grew f i st h k st'' where
  type_ := h2.type_.trans h1.type_
  device := h2.device.trans h1.device
  suffix := h2.suffix.trans h1.suffix
  kept n b hb h0 := h2.kept n b (h1.kept n b hb h0) h0
  gained n b hb h0 := by
    rcases h2.gained n b hb h0 with hj | ⟨hm, hn⟩
    · rcases h1.gained n b hj h0 with hi | ⟨hm, hn⟩
      · exact Or.inl hi
      · exact Or.inr ⟨hm, fun hs => hn (h2.suffix.subset hs)⟩
    · exact Or.inr ⟨h1.suffix.subset hm, hn⟩
  untouched s h0 hst hi := by
    rw [h2.untouched s h0 (fun hm => hst (h1.suffix.subset hm)) ?_, h1.untouched s h0 hst hi]
    intro n hn
    rcases h1.gained n s hn h0 with hm | ⟨hm, _⟩
    · exact hi n hm
    · exact hst hm
  superblock := by
    obtain ⟨a, ha⟩ := h1.superblock
    obtain ⟨b, hb⟩ := h2.superblock
    exact ⟨b, by rw [hb, ha]⟩

theorem Grew.inodeStart {f g : Sectors} {i j : Inode} {st st' : List UInt32}
    (h : Grew f i st g j st') :
    (bufferToSb (g 0).val).inodeStart = (bufferToSb (f 0).val).inodeStart := by
  obtain ⟨a, ha⟩ := h.superblock
  rw [ha]

/-- Writing through an inode leaves the inode table alone. -/
theorem Grew.table {f g : Sectors} {i j : Inode} {st st' : List UInt32} (hf : Own f i st)
    (h : Grew f i st g j st') {b : UInt32} (hb : IsTable b) : g b = f b :=
  h.untouched b hb.ne_zero (fun hm => hb.not_data (hf.free_data b hm))
    fun m hm => hb.not_data (hf.data m b hm hb.ne_zero)

/-- **Writing through an inode keeps the file system well formed.** -/
theorem WellFormed.grew {f g : Sectors} {i j : Inode} {st st' : List UInt32} (hwf : WellFormed f st)
    (hf : Own f i st) (hg : Own g j st') (h : Grew f i st g j st') : WellFormed g st' := by
  refine ⟨?_, ?_, hg.freelist, hg.free_data⟩
  · rw [h.inodeStart, hwf.inodeStart]
  · intro b hb
    rw [h.table hf hb]
    exact hwf.table b hb

section Steps

variable {f g : Sectors} {i : Inode} {st : List UInt32}

/-- Writing a block of the inode. -/
theorem Own.write (h : Own f i st) {n : Nat} {b : UInt32} (hb : i.blocks[n]? = some b) (h0 : b ≠ 0)
    (x : Sector) :
    Own (Function.update f b x) i st ∧ Grew f i st (Function.update f b x) i st := by
  have hst : b ∉ st := h.used n b hb h0
  refine ⟨⟨h.freelist.congr ?_ ?_, h.free_data, h.data, h.used, h.once⟩,
    rfl, rfl, List.suffix_refl st, fun _ _ hk _ => hk, fun _ _ hk _ => Or.inl hk, ?_,
    ⟨(bufferToSb (f 0).val).freelistStart, ?_⟩⟩
  · rw [freelistHead, Function.update_of_ne h0.symm, freelistHead]
  · intro c hc
    rw [Function.update_of_ne]
    rintro rfl
    exact hst hc
  · intro s _ _ hi
    rw [Function.update_of_ne]
    rintro rfl
    exact hi n hb
  · rw [Function.update_of_ne h0.symm]

/-- The inode with block `b` mapped at index `n`. -/
def Inode.mapBlock (i : Inode) (n : Nat) (b : UInt32) : Inode :=
  { i with blocks := i.blocks.setIfInBounds n b }

theorem mapBlock_self (i : Inode) {n : Nat} (hn : n < 64) (b : UInt32) :
    (i.mapBlock n b).blocks[n]? = some b :=
  Vector.getElem?_setIfInBounds_self_of_lt hn

theorem mapBlock_other (i : Inode) {n m : Nat} (h : n ≠ m) (b : UInt32) :
    (i.mapBlock n b).blocks[m]? = i.blocks[m]? :=
  Vector.getElem?_setIfInBounds_ne h

theorem lt_of_blocks {i : Inode} {n : Nat} {b : UInt32} (h : i.blocks[n]? = some b) : n < 64 := by
  rw [Vector.getElem?_eq_some_iff] at h
  exact h.1

/-- Mapping the block just taken off the freelist. -/
theorem Own.alloc {b : UInt32} (h : Own f i (b :: st)) {n : Nat} (hn : i.blocks[n]? = some 0)
    (hg : Freelist g st) (hfr : FreelistFrame f g (b :: st)) :
    Own g (i.mapBlock n b) st ∧ Grew f i (b :: st) g (i.mapBlock n b) st := by
  have hlt := lt_of_blocks hn
  have hb0 : b ≠ 0 := h.freelist.nonzero b List.mem_cons_self
  have hbst : b ∉ st := (List.nodup_cons.mp h.freelist.nodup).1
  -- a block of the new map is the new one, or one of the old ones
  have hcases : ∀ (m : Nat) c, (i.mapBlock n b).blocks[m]? = some c →
      (m = n ∧ c = b) ∨ (m ≠ n ∧ i.blocks[m]? = some c) := by
    intro m c hc
    by_cases hm : n = m
    · subst hm
      rw [mapBlock_self i hlt] at hc
      exact Or.inl ⟨rfl, (Option.some.inj hc).symm⟩
    · rw [mapBlock_other i hm] at hc
      exact Or.inr ⟨fun e => hm e.symm, hc⟩
  have hnotb : ∀ m : Nat, i.blocks[m]? ≠ some b := fun m hm =>
    h.used m b hm hb0 List.mem_cons_self
  refine ⟨⟨hg, fun c hc => h.free_data c (List.mem_cons_of_mem b hc), ?_, ?_, ?_⟩,
    rfl, rfl, List.suffix_cons b st, ?_, ?_, fun s h0 hs _ => hfr.others s h0 hs, hfr.superblock⟩
  · intro m c hc h0
    rcases hcases m c hc with ⟨_, rfl⟩ | ⟨_, hm⟩
    · exact h.free_data c List.mem_cons_self
    · exact h.data m c hm h0
  · intro m c hc h0
    rcases hcases m c hc with ⟨_, rfl⟩ | ⟨_, hm⟩
    · exact hbst
    · exact fun hin => h.used m c hm h0 (List.mem_cons_of_mem b hin)
  · intro m m' c hc hc' h0
    rcases hcases m c hc with ⟨rfl, rfl⟩ | ⟨_, hm⟩
    · rcases hcases m' c hc' with ⟨rfl, _⟩ | ⟨_, hm'⟩
      · rfl
      · exact absurd hm' (hnotb m')
    · rcases hcases m' c hc' with ⟨_, rfl⟩ | ⟨_, hm'⟩
      · exact absurd hm (hnotb m)
      · exact h.once m m' c hm hm' h0
  · intro m c hc h0
    rw [mapBlock_other i, hc]
    rintro rfl
    rw [hn] at hc
    exact h0 (Option.some.inj hc).symm
  · intro m c hc h0
    rcases hcases m c hc with ⟨_, rfl⟩ | ⟨_, hm⟩
    · exact Or.inr ⟨List.mem_cons_self, hbst⟩
    · exact Or.inl hm

/-- Setting the size. -/
theorem Own.resize (h : Own f i st) (size : UInt32) :
    Own f { i with size := size } st ∧ Grew f i st f { i with size := size } st :=
  ⟨⟨h.freelist, h.free_data, h.data, h.used, h.once⟩,
    ⟨rfl, rfl, List.suffix_refl st, fun _ _ hk _ => hk, fun _ _ hk _ => Or.inl hk,
      fun _ _ _ _ => rfl, ⟨_, rfl⟩⟩⟩

end Steps

/-! ## 2. Code over the disk and an inode -/

section Code

variable {T : Type} [Disk T] [FaultFree T] {dev : UInt32} {f : Sectors} {i : Inode}

/-- The view of a disk and an inode. -/
abbrev fileView (dev : UInt32) : T × Inode → Sectors × Inode := onView (sectors dev)

section TheInode

variable {S υ : Type} {view : S → υ} {v : υ}

theorem gives_theInode : Gives (onView view) theInode (v, i) (.ok i) (v, i) := by
  rintro ⟨d, j⟩ hd
  obtain ⟨rfl, rfl⟩ := Prod.mk.inj hd
  exact ⟨rfl, rfl⟩

theorem gives_setTheInode (h : Inode → Inode) :
    Gives (onView view) (setTheInode h) (v, i) (.ok ()) (v, h i) := by
  rintro ⟨d, j⟩ hd
  obtain ⟨rfl, rfl⟩ := Prod.mk.inj hd
  exact ⟨rfl, rfl⟩

end TheInode

variable {n : Nat} {b : UInt32}

/-- The block is mapped: nothing happens, on any disk. -/
theorem bmapOrAlloc_mapped {S υ : Type} [Disk S] {view : S → υ} {v : υ}
    (hb : i.blocks[n]? = some b) (h0 : b ≠ 0) :
    Gives (onView view) (bmapOrAlloc n) (v, i) (.ok b) (v, i) := by
  unfold bmapOrAlloc
  refine gives_theInode.then ((gives_ofOption hb).then ?_)
  rw [if_neg h0]
  exact gives_theInode.then (gives_ofOption hb)

/-- The block is not mapped: one is taken off the freelist. -/
theorem bmapOrAlloc_alloc {st : List UInt32} (hn : i.blocks[n]? = some 0) (hdev : i.device = dev)
    (hf : Freelist f (b :: st)) :
    ∃ g, Gives (fileView (T := T) dev) (bmapOrAlloc n) (f, i) (.ok b) (g, i.mapBlock n b) ∧
      Freelist g st ∧ g b = Sector.zero ∧ FreelistFrame f g (b :: st) := by
  obtain ⟨g, hg, hst, hz, hfr⟩ := allocBlock_pop (T := T) dev hf
  refine ⟨g, ?_, hst, hz, hfr⟩
  unfold bmapOrAlloc
  refine gives_theInode.then ((gives_ofOption hn).then ?_)
  rw [if_pos rfl, hdev]
  refine hg.onFst.then ((gives_setTheInode _).then (gives_theInode.then ?_))
  exact gives_ofOption (mapBlock_self i (lt_of_blocks hn) b)

/-- The block is not mapped and there is no free one: an error, and nothing changed. -/
theorem bmapOrAlloc_exhausted (hn : i.blocks[n]? = some 0) (hdev : i.device = dev)
    (hf : Freelist f []) :
    Gives (fileView (T := T) dev) (bmapOrAlloc n) (f, i) (.err .exhaustedBlocks) (f, i) := by
  unfold bmapOrAlloc
  refine gives_theInode.then ((gives_ofOption hn).then ?_)
  rw [if_pos rfl, hdev]
  exact Gives.then_err (allocBlock_empty dev hf).onFst

/-- The index is past the block array. -/
theorem bmapOrAlloc_panics (hn : i.blocks[n]? = none) :
    Gives (fileView (T := T) dev) (bmapOrAlloc n) (f, i) .panic (f, i) := by
  unfold bmapOrAlloc
  refine gives_theInode.then (Gives.then_panic ?_)
  rw [hn]
  exact gives_crash

end Code

/-! ## 3. Fresh inodes, and a disk to start from -/

/-- The inode a new file or directory starts with (`write_file`, `mkfs`). -/
def freshInode (type_ : InodeType) (device : UInt32) : Inode where
  type_ := type_
  device := device
  major := 0
  minor := 0
  size := 0
  blocks := Vector.replicate ndirect 0

theorem freshInode_blocks {t : InodeType} {dev : UInt32} {n : Nat} {b : UInt32}
    (h : (freshInode t dev).blocks[n]? = some b) : b = 0 := by
  rw [freshInode, Vector.getElem?_replicate] at h
  split at h
  · exact (Option.some.inj h).symm
  · cases h

theorem freshInode_file_used (dev : UInt32) : (freshInode .file dev).type_ ≠ .unused := nofun

/-- A fresh inode maps nothing, so it owns what it maps. -/
theorem own_fresh {f : Sectors} {st : List UInt32} (hfree : Freelist f st)
    (hdata : ∀ b ∈ st, IsData b) (t : InodeType) (dev : UInt32) : Own f (freshInode t dev) st where
  freelist := hfree
  free_data := hdata
  data _ _ hb h0 := absurd (freshInode_blocks hb) h0
  used _ _ hb h0 := absurd (freshInode_blocks hb) h0
  once _ _ _ hb _ h0 := absurd (freshInode_blocks hb) h0

theorem WellFormed.own_fresh {f : Sectors} {st : List UInt32} (h : WellFormed f st) (t : InodeType)
    (dev : UInt32) : Own f (freshInode t dev) st :=
  SimpleFs.own_fresh h.freelist h.free_data t dev

/-- A superblock with the inode table at block 1 and the freelist at block 257. -/
def oneBlockSb : Sector :=
  ⟨le32 0 ++ (le32 258 ++ (le32 256 ++ (le32 1 ++ (le32 257 ++ List.replicate 492 0)))), by
    simp only [List.length_append, length_le32, List.length_replicate]⟩

/-- A disk with an empty inode table and one free block. -/
def oneBlockDisk : MemDisk :=
  ⟨fun _ => Function.update (fun _ => Sector.zero) 0 oneBlockSb⟩

/-- A disk with an empty inode table and a freelist of one link block. -/
theorem wellFormed_of_link {f : Sectors} {l : Link}
    (hsb : (bufferToSb (f 0).val).inodeStart = 1 ∧ (bufferToSb (f 0).val).freelistStart = l.addr)
    (htable : ∀ b, IsTable b → f b = Sector.zero) (hlink : IsLink f l 0)
    (hdata : ∀ b ∈ l.stack, IsData b) (hnodup : l.stack.Nodup) : WellFormed f l.stack := by
  have hstack : stackOf [l] = l.stack := List.append_nil _
  refine ⟨hsb.1, fun b hb => ?_, ⟨[l], ⟨⟨hsb.2, 0, hlink, rfl⟩, ?_, ?_⟩, hstack⟩, hdata⟩
  · rw [htable b hb]
    exact ⟨unusedInode, by decide +kernel⟩
  · rw [hstack]
    exact fun b hb => (hdata b hb).ne_zero
  · rw [hstack]
    exact hnodup

theorem oneBlockDisk_wellFormed (dev : UInt32) : WellFormed (sectors dev oneBlockDisk) [257] := by
  let f : Sectors := Function.update (fun _ => Sector.zero) 0 oneBlockSb
  have hz : ∀ b : UInt32, b ≠ 0 → f b = Sector.zero := fun b hb => Function.update_of_ne hb _ _
  refine wellFormed_of_link (f := f) (l := ⟨257, []⟩) (by decide +kernel)
    (fun b hb => hz b hb.ne_zero) ⟨Nat.zero_le _, ?_⟩ ?_ (by decide)
  · show words (f 257).val = _
    rw [hz 257 (by decide)]
    exact words_replicate_zero 512
  · intro b hb
    rw [List.mem_singleton.mp hb]
    exact (by decide : 257 ≤ (257 : UInt32).toNat)

/-- The link block of a freelist of four blocks. -/
def fourBlockLink : Sector :=
  ⟨([0, 258, 259, 260] ++ List.replicate 124 (0 : UInt32)).flatMap le32, by
    rw [length_flatMap_le32, List.length_append, List.length_replicate]
    rfl⟩

/-- A disk with an empty inode table and four free blocks. -/
def fourBlockDisk : MemDisk :=
  ⟨fun _ => Function.update (Function.update (fun _ => Sector.zero) 257 fourBlockLink) 0 oneBlockSb⟩

theorem fourBlockDisk_wellFormed (dev : UInt32) :
    WellFormed (sectors dev fourBlockDisk) [260, 259, 258, 257] := by
  let f : Sectors :=
    Function.update (Function.update (fun _ => Sector.zero) 257 fourBlockLink) 0 oneBlockSb
  refine wellFormed_of_link (f := f) (l := ⟨257, [258, 259, 260]⟩) (by decide +kernel)
    (fun b hb => ?_) ⟨by decide, by decide +kernel⟩ ?_ (by decide)
  · have hne : b ≠ 257 := by
      rintro rfl
      exact absurd hb.2 (by decide)
    exact (Function.update_of_ne hb.ne_zero _ _).trans (Function.update_of_ne hne _ _)
  · intro b hb
    have hmem : b ∈ [(260 : UInt32), 259, 258, 257] := hb
    unfold IsData
    simp only [List.mem_cons, List.not_mem_nil, or_false] at hmem
    rcases hmem with rfl | rfl | rfl | rfl <;> decide

/-! ## 4. The bytes of a file -/

/-- Byte `pos` of the file: byte `pos % 512` of block `pos / 512` (`none`: not mapped). -/
def fileByte (f : Sectors) (i : Inode) (pos : Nat) : Option UInt8 :=
  match i.blocks[pos / 512]? with
  | some b => if b = 0 then none else (f b).val[pos % 512]?
  | none => none

theorem fileByte_mapped {f : Sectors} {i : Inode} {pos : Nat} {b : UInt32}
    (hb : i.blocks[pos / 512]? = some b) (h0 : b ≠ 0) :
    fileByte f i pos = (f b).val[pos % 512]? := by
  rw [fileByte, hb]
  exact if_neg h0

/-- A file reads its own blocks only. -/
theorem fileByte_congr {f g : Sectors} {i j : Inode} {pos : Nat}
    (hb : j.blocks[pos / 512]? = i.blocks[pos / 512]?)
    (hs : ∀ b, i.blocks[pos / 512]? = some b → b ≠ 0 → g b = f b) :
    fileByte g j pos = fileByte f i pos := by
  unfold fileByte
  rw [hb]
  cases h : i.blocks[pos / 512]? with
  | none => rfl
  | some b =>
    by_cases h0 : b = 0
    · simp only [h0, if_true]
    · simp only [h0, if_false]
      rw [hs b h h0]

end Sprocket.SimpleFs
