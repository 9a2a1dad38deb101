/-
  File:      Sprocket/SimpleFs/Mkfs.lean
  Subject:   FORMATTING A DISK (`bin.rs`): `mkfs`, from any contents.

  `mkfs` clears the 256 inodes, writes the superblock, frees the data blocks and makes the root
  directory. The inodes are cleared with `update_inode`, which looks up the start of the table in
  the superblock of the disk -- the OLD one, since the new one is written after the loop. So the
  loop clears the 256 blocks from the old `inode_start` on, and a slot of the new table that is
  not among them keeps what it held.

  * `clearInodes_ends`, `clearInodes_overflows` -- the first loop;
  * `freeBlocks_ends` -- the freelist: 999 down to 257;
  * `makeRoot_ends`, `makeRoot_refused` -- the root directory goes to slot 0, if that is unused;
  * `mkfs_formats_iff` -- the disk is formatted exactly when the old table start does not overflow
    and every slot the loop misses was unused before.
-/
import Sprocket.Lib.Loop
import Sprocket.SimpleFs.InodeTable
import Sprocket.SimpleFs.DirectoryRuns

namespace Sprocket.SimpleFs

open Bytes Prog

/-! ## 1. The code -/

/-- `FS_SIZE`, in blocks. -/
abbrev fsSize : Nat := 1000

/-- The superblock of a new file system. -/
def tmpSb : SuperBlock where
  size := 0
  nblocks := UInt32.ofNat fsSize
  ninodes := UInt32.ofNat numInodes
  inodeStart := 1
  freelistStart := unusedBlockaddr

section Code

variable {T : Type} [Disk T]

/-- The root directory: the last part of `mkfs`. -/
def makeRoot : Prog T FsError Unit := do
  let inode := freshInode .directory rootDev
  let inum ← allocInode 0 inode
  require (inum = rootInum)
  let r ← withLocal inode (do
    dirAdd [46] rootInum
    let dir ← theInode
    require (dir.size.toNat = direntSize)
    dirAdd [46, 46] rootInum
    let dir ← theInode
    require (dir.size.toNat = 2 * direntSize))
  updateInode rootInum r.2
  let inum2 ← readInode rootDev rootInum
  require (r.2.type_ = inum2.type_)
  require (r.2.size = inum2.size)
  require (r.2.blocks[0] = inum2.blocks[0])
  let dot ← attempt (dirLookup r.2 [46])
  require (dot = .ok (0, 0))
  let dotdot ← attempt (dirLookup r.2 [46, 46])
  require (dotdot = .ok (0, direntSize))

/-- The first loop of `mkfs`: an unused inode for each of the inodes. -/
def clearInodes : Prog T FsError Unit :=
  forEach (fun i => updateInode (UInt32.ofNat i) unusedInode) (List.range numInodes)

/-- The second loop: every data block goes to the freelist. -/
def freeBlocks (datablocksStart : Nat) : Prog T FsError Unit :=
  forEach (fun blockno => unwrap (freeBlock 0 (UInt32.ofNat blockno)))
    (blockRange datablocksStart fsSize)

def mkfs : Prog T FsError Unit := do
  clearInodes
  let datablocksStart := 1 + numInodes / (blockSize / inodeSize)
  let buf := splice zeroBlock 0 (sbBytes tmpSb)
  let _ ← diskWrite buf 0 superblockAddr
  -- the copy is taken before the read: the check compares the buffer with what was put into it
  let sb2 := bufferToSb buf
  let _ ← diskRead buf 0 superblockAddr
  require (sb2 = tmpSb)
  freeBlocks datablocksStart
  makeRoot

end Code

/-! ## 2. Clearing the inodes -/

/-- The block the superblock says the inode table starts at. -/
def tableStart (f : Sectors) : Nat := (bufferToSb (f 0).val).inodeStart.toNat

/-- The size of the inode at the start of a block shares its bytes with the table start. -/
theorem inodeStart_of_inodeFrom {b : List UInt8} {i : Inode} (h : inodeFrom b 0 = some i) :
    (bufferToSb b).inodeStart = i.size := by
  unfold inodeFrom at h
  obtain ⟨t, _, rfl⟩ := Option.map_eq_some_iff.mp h
  rfl

/-- Clearing an inode keeps the table start, also in block 0: there the start was 0, and the
    unused inode has size 0. -/
theorem tableStart_storeAt {f : Sectors} {b : UInt32} (h : b = 0 → tableStart f = 0) :
    tableStart (storeAt f b unusedInode) = tableStart f := by
  by_cases hb : b = 0
  · subst hb
    rw [h rfl, tableStart, inodeStart_of_inodeFrom (inodeFrom_storeAt_self f 0 unusedInode)]
    rfl
  · rw [tableStart, storeAt, Function.update_of_ne (Ne.symm hb), tableStart]

/-- What the loop has done to the sectors `f`, with the inodes `todo` still to clear. -/
structure Clearing (f : Sectors) (todo : List Nat) (g : Sectors) : Prop where
  inums : ∀ k ∈ todo, k < 256
  start : tableStart g = tableStart f
  cleared : ∀ k, k < 256 → k ∉ todo →
    inodeFrom (g (UInt32.ofNat (tableStart f + k))).val 0 = some unusedInode
  others : ∀ b : UInt32, b.toNat < tableStart f ∨ tableStart f + 256 ≤ b.toNat → g b = f b

theorem toNat_ofNat_lt {n : Nat} (h : n < 2 ^ 32) : (UInt32.ofNat n).toNat = n :=
  UInt32.toNat_ofNat_of_lt' h

theorem ofNat_ne {m n : Nat} (hm : m < 2 ^ 32) (hn : n < 2 ^ 32) (h : m ≠ n) :
    UInt32.ofNat m ≠ UInt32.ofNat n := by
  intro e
  have e' := congrArg UInt32.toNat e
  rw [toNat_ofNat_lt hm, toNat_ofNat_lt hn] at e'
  exact h e'

/-- One round of the loop. -/
theorem Clearing.round {f g : Sectors} {k : Nat} {todo : List Nat} (h : Clearing f (k :: todo) g)
    (hfit : tableStart f + 255 < 2 ^ 32) :
    Clearing f todo (storeAt g (UInt32.ofNat (tableStart f + k)) unusedInode) := by
  have hk := h.inums k List.mem_cons_self
  refine ⟨fun m hm => h.inums m (List.mem_cons_of_mem k hm), ?_, fun m hm hmem => ?_,
    fun b hb => ?_⟩
  · rw [tableStart_storeAt ?_, h.start]
    intro e
    have e' := congrArg UInt32.toNat e
    rw [toNat_ofNat_lt (by omega)] at e'
    have h0 : (0 : UInt32).toNat = 0 := rfl
    rw [h.start]
    omega
  · by_cases e : m = k
    · subst e
      exact inodeFrom_storeAt_self g _ unusedInode
    · rw [storeAt, Function.update_of_ne (ofNat_ne (by omega) (by omega) (by omega))]
      exact h.cleared m hm fun hmem' => (List.mem_cons.mp hmem').elim e hmem
  · have hne : b ≠ UInt32.ofNat (tableStart f + k) := by
      intro e
      rw [e, toNat_ofNat_lt (by omega)] at hb
      omega
    rw [storeAt, Function.update_of_ne hne]
    exact h.others b hb

section Loops

variable {T : Type} [Disk T] [FaultFree T] {f : Sectors}

/-- **The first loop clears the 256 blocks from the old table start on.** -/
theorem clearInodes_ends (hfit : tableStart f + 255 < 2 ^ 32) :
    Ends (sectors (T := T) 0) clearInodes f fun o g => o = .ok () ∧ Clearing f [] g := by
  refine ends_forEach (I := Clearing f) ?_ (fun g hg => ⟨rfl, hg⟩) _ f ?_
  · intro k todo g hg
    have hk := hg.inums k List.mem_cons_self
    have hnum : (UInt32.ofNat k).toNat = k := toNat_ofNat_lt (by omega)
    have hcall := updateInode_at (T := T) (UInt32.ofNat k) hg.start
      (by rw [hnum]; omega) (rfl : unusedInode.device = 0)
    rw [hnum] at hcall
    exact hcall.ends (hg.round hfit)
  · exact ⟨fun k hk => List.mem_range.mp hk, rfl,
      fun k hk hmem => absurd (List.mem_range.mpr hk) hmem, fun _ _ => rfl⟩

/-- A table start too large for 256 blocks ends the loop with a panic. -/
theorem clearInodes_overflows (hover : 2 ^ 32 ≤ tableStart f + 255) :
    Ends (sectors (T := T) 0) clearInodes f fun o _ => o = .panic := by
  -- the last inode is still to be cleared
  refine ends_forEach
    (I := fun todo g => tableStart g = tableStart f ∧ 255 ∈ todo ∧ ∀ k ∈ todo, k < 256) ?_
    (fun g hg => absurd hg.2.1 List.not_mem_nil) _ f
    ⟨rfl, by decide +kernel, fun k hk => List.mem_range.mp hk⟩
  intro k todo g hg
  obtain ⟨hstart, hlast, hall⟩ := hg
  have hk := hall k List.mem_cons_self
  have hnum : (UInt32.ofNat k).toNat = k := toNat_ofNat_lt (by omega)
  by_cases hfit : tableStart f + k < 2 ^ 32
  · have hcall := updateInode_at (T := T) (UInt32.ofNat k) hstart
      (by rw [hnum]; exact hfit) (rfl : unusedInode.device = 0)
    rw [hnum] at hcall
    refine hcall.ends ⟨?_, ?_, fun m hm => hall m (List.mem_cons_of_mem k hm)⟩
    · rw [tableStart_storeAt ?_, hstart]
      intro e
      have e' := congrArg UInt32.toNat e
      rw [toNat_ofNat_lt hfit] at e'
      have h0 : (0 : UInt32).toNat = 0 := rfl
      omega
    · cases List.mem_cons.mp hlast with
      | inl e => omega
      | inr hmem => exact hmem
  · have hpanic : Gives (sectors (T := T) 0) (updateInode (UInt32.ofNat k) unusedInode) g .panic
        g := updateInode_overflows hstart (by rw [hnum]; exact Nat.le_of_not_lt hfit) rfl
    exact hpanic.ends rfl

/-! ## 3. The freelist -/

/-- The data blocks, in the order the loop frees them. -/
def dataBlocks : List Nat := blockRange 257 fsSize

theorem mem_dataBlocks {k : Nat} : k ∈ dataBlocks ↔ 257 ≤ k ∧ k < 1000 := by
  rw [dataBlocks, blockRange, List.mem_range'_1]
  rfl

/-- The freelist with the blocks of `freed` on it, the last one on top. -/
def dataStack (freed : List Nat) : List UInt32 := (freed.map UInt32.ofNat).reverse

theorem mem_dataStack {freed : List Nat} (h : ∀ k ∈ freed, k < 2 ^ 32) {b : UInt32} :
    b ∈ dataStack freed ↔ b.toNat ∈ freed := by
  rw [dataStack, List.mem_reverse, List.mem_map]
  constructor
  · intro ⟨k, hk, e⟩
    subst e
    rw [toNat_ofNat_lt (h k hk)]
    exact hk
  · intro hb
    exact ⟨b.toNat, hb, UInt32.ofNat_toNat⟩

theorem mem_dataStack_dataBlocks (a : UInt32) :
    a ∈ dataStack dataBlocks ↔ 257 ≤ a.toNat ∧ a.toNat < fsSize := by
  rw [mem_dataStack fun k hk => ?_, mem_dataBlocks]
  have := mem_dataBlocks.mp hk
  omega

/-- What the second loop has done to the sectors `f` after freeing `freed`. -/
structure Freeing (f : Sectors) (todo : List Nat) (g : Sectors) : Prop where
  freed : ∃ freed, dataBlocks = freed ++ todo ∧ Freelist g (dataStack freed)
  superblock : ∃ addr, bufferToSb (g 0).val = { bufferToSb (f 0).val with freelistStart := addr }
  table : ∀ b, IsTable b → g b = f b

/-- **The second loop puts every data block on the freelist.** -/
theorem freeBlocks_ends (hempty : freelistHead f = 0) :
    Ends (sectors (T := T) 0) (freeBlocks 257) f fun o g => o = .ok () ∧ Freeing f [] g := by
  refine ends_forEach (I := Freeing f) ?_ (fun g hg => ⟨rfl, hg⟩) _ f
    ⟨⟨[], rfl, freelist_nil_iff.mpr hempty⟩, ⟨_, rfl⟩, fun _ _ => rfl⟩
  intro k todo g hg
  obtain ⟨freed, hsplit, hfree⟩ := hg.freed
  have hall : ∀ m ∈ freed ++ k :: todo, 257 ≤ m ∧ m < 1000 := by
    intro m hm
    rw [← hsplit] at hm
    exact mem_dataBlocks.mp hm
  have hk := hall k (List.mem_append_right _ List.mem_cons_self)
  have hbound : ∀ m ∈ freed, 257 ≤ m ∧ m < 1000 := fun m hm => hall m (List.mem_append_left _ hm)
  have hnum : (UInt32.ofNat k).toNat = k := toNat_ofNat_lt (by omega)
  have hdata : IsData (UInt32.ofNat k) := by
    rw [IsData, hnum]
    exact hk.1
  have hlt : ∀ m ∈ freed, m < 2 ^ 32 := by
    intro m hm
    have := hbound m hm
    omega
  have hnew : UInt32.ofNat k ∉ dataStack freed := by
    rw [mem_dataStack hlt, hnum]
    intro hmem
    have hnd : (freed ++ k :: todo).Nodup := hsplit ▸ List.nodup_range'
    exact (List.nodup_append.mp hnd).2.2 k hmem k List.mem_cons_self rfl
  obtain ⟨g', hg', hfree', hframe⟩ := freeBlock_push (T := T) 0 hfree hdata.ne_zero hnew
  refine hg'.unwrap_ok.ends ⟨⟨freed ++ [k], ?_, ?_⟩, ?_, fun b hb => ?_⟩
  · rw [hsplit, List.append_assoc]
    rfl
  · rw [dataStack, List.map_append, List.reverse_append]
    exact hfree'
  · obtain ⟨addr, haddr⟩ := hg.superblock
    obtain ⟨addr', haddr'⟩ := hframe.superblock
    rw [haddr] at haddr'
    exact ⟨addr', haddr'⟩
  · rw [hframe.others b hb.ne_zero ?_, hg.table b hb]
    intro hmem
    cases List.mem_cons.mp hmem with
    | inl e => exact hb.not_data (e ▸ hdata)
    | inr hm => exact hb.not_data (hbound _ ((mem_dataStack hlt).mp hm)).1

end Loops

/-! ## 4. The root directory -/

/-- A directory does not see what happens to the inode table. -/
theorem DirRep.storeInode {dev : UInt32} {f : Sectors} {i : Inode} {st : List UInt32}
    {es : List Entry} (h : DirRep dev f i st es) {k : Nat} (hk : k < 256) (inode : Inode) :
    DirRep dev (storeInode f k inode) i st es := by
  have hfree := h.own.freelist.storeInode h.own.free_data hk inode
  refine ⟨⟨hfree, h.own.free_data, h.own.data, h.own.used, h.own.once⟩, h.type_, h.device, h.size,
    h.room, fun k' e he => ?_⟩
  have hs := h.slots k' e he
  refine ⟨hs.legal, hs.fits, hs.mapped, fun q hq hfit => ?_⟩
  rw [fileByte_congr rfl fun b hb h0 => storeInode_data hk (h.own.data _ b hb h0)]
  exact hs.bytes q hq hfit

/-- The two entries of a root directory. -/
def dot : Entry := ⟨[46], rootInum⟩
def dotdot : Entry := ⟨[46, 46], rootInum⟩

theorem dot_legal : dot.Legal := ⟨by decide, by decide, by decide⟩

theorem dotdot_legal : dotdot.Legal := ⟨by decide, by decide, by decide⟩

/-- The names are found where `mkfs` asserts they are. -/
theorem findEntry_root :
    findEntry [46] 0 [dot, dotdot] = some (0, 0) ∧
    findEntry [46, 46] 0 [dot, dotdot] = some (0, direntSize) := by
  decide

/-- A formatted disk: its root directory `root`, stored in block `b`, and its freelist. -/
structure Formatted (f : Sectors) (root : Inode) (b : UInt32) (st : List UInt32) : Prop where
  inodeStart : (bufferToSb (f 0).val).inodeStart = 1
  stored : slot f rootInum.toNat = some root
  type_ : root.type_ = .directory
  size : root.size.toNat = 2 * direntSize
  block : root.blocks[0]? = some b
  freelist : Freelist f st
  free : ∀ a, a ∈ st ↔ (257 ≤ a.toNat ∧ a.toNat < fsSize) ∧ a ≠ b

/-- The blocks of an inode are blocks of the image. -/
def OnImage (i : Inode) : Prop := ∀ (n : Nat) b, i.blocks[n]? = some b → b.toNat < fsSize

section Root

variable {T : Type} [Disk T] [FaultFree T] {f : Sectors} {st : List UInt32}

/-- The two `dir_add`s of the root directory. -/
theorem dirAdd_root (hown : Own f (freshInode .directory rootDev) st) (hne : st ≠ []) :
    ∃ g root b st', Gives (fileView (T := T) rootDev) (do
        dirAdd [46] rootInum
        let dir ← theInode
        require (dir.size.toNat = direntSize)
        dirAdd [46, 46] rootInum
        let dir ← theInode
        require (dir.size.toNat = 2 * direntSize)) (f, freshInode .directory rootDev) (.ok ())
        (g, root) ∧
      DirRep rootDev g root st' [dot, dotdot] ∧
      Grew f (freshInode .directory rootDev) st g root st' ∧
      root.blocks[0]? = some b ∧ st = b :: st' := by
  have h0 : DirRep rootDev f (freshInode .directory rootDev) st [] :=
    dirRep_empty hown rfl rfl rfl
  have hlen : 0 < st.length := List.length_pos_of_ne_nil hne
  have hone : toMap (freshInode .directory rootDev) 0 = 1 := by decide
  obtain ⟨g₁, r₁, st₁, hg₁, h1, hgrew₁, hcost₁⟩ := dirAdd_append (T := T) h0 dot_legal rfl
    (by decide) (by show toMap _ 0 ≤ _; rw [hone]; exact hlen)
  have hmapped : toMap r₁ 0 ≤ 0 := by
    have h := h1.toMap_le
    exact Nat.le_of_add_le_add_right h
  obtain ⟨g₂, r₂, st₂, hg₂, h2, hgrew₂, hcost₂⟩ := dirAdd_append (T := T) h1 dotdot_legal
    (by decide) (by decide) (Nat.le_trans hmapped (Nat.zero_le _))
  have hgrew := hgrew₁.trans hgrew₂
  have hcost : st.length = st₂.length + 1 := by
    have h1 : st.length = st₁.length + 1 := hcost₁.trans (congrArg _ hone)
    have h2 : st₁.length = st₂.length + toMap r₁ 0 := hcost₂
    omega
  obtain ⟨taken, htaken⟩ := hgrew.suffix
  have hlength : taken.length = 1 := by
    have h := congrArg List.length htaken
    rw [List.length_append] at h
    omega
  obtain ⟨b, rfl⟩ := List.length_eq_one_iff.mp hlength
  -- the block the directory has gained is the one the freelist has lost
  obtain ⟨b', hb', hb'0⟩ := (h2.slots 0 _ rfl).mapped
  have hb : b' = b := by
    cases hgrew.gained _ b' hb' hb'0 with
    | inl hfresh => exact absurd (freshInode_blocks hfresh) hb'0
    | inr hgone =>
      obtain ⟨hin, hout⟩ := hgone
      rw [← htaken] at hin
      cases List.mem_cons.mp hin with
      | inl e => exact e
      | inr hmem => exact absurd hmem hout
  have hes : [] ++ [dot.cut 0] ++ [dotdot.cut 1] = [dot, dotdot] := by decide
  have hrep : DirRep rootDev g₂ r₂ st₂ [dot, dotdot] := hes ▸ h2
  refine ⟨g₂, r₂, b, st₂, ?_, hrep, hgrew, hb ▸ hb', htaken.symm⟩
  refine hg₁.then (gives_theInode.then ((gives_require h1.size).then ?_))
  exact hg₂.then (gives_theInode.then (gives_require hrep.size))

/-- **The root directory goes to slot 0, if that is unused.** The other slots stay as they are. -/
theorem makeRoot_ends (hdisk : sectors (T := T) 0 = sectors rootDev)
    (hstart : (bufferToSb (f 0).val).inodeStart = 1)
    (hfree : Freelist f st) (hst : ∀ a, a ∈ st ↔ 257 ≤ a.toNat ∧ a.toNat < fsSize)
    (hslot : isUnused f 0 = true) :
    Ends (sectors (T := T) rootDev) makeRoot f fun o g =>
      o = .ok () ∧ (∀ k, 1 ≤ k → k < 256 → slot g k = slot f k) ∧
      ∃ root b st, Formatted g root b st ∧ DirRep rootDev g root st [dot, dotdot] ∧
        OnImage root := by
  have hdata : ∀ b ∈ st, IsData b := fun b hb => ((hst b).mp hb).1
  have hne : st ≠ [] := List.ne_nil_of_mem ((hst 257).mpr (by decide))
  have halloc : Gives (sectors (T := T) rootDev) (allocInode 0 (freshInode .directory rootDev)) f
      (.ok 0) (storeInode f 0 (freshInode .directory rootDev)) := by
    rw [← hdisk]
    exact allocInode_first hstart nofun hslot
  have hown := own_fresh (hfree.storeInode hdata (by decide : 0 < 256)
    (freshInode .directory rootDev)) hdata .directory rootDev
  obtain ⟨g, root, b, st', hadd, hrep, hgrew, hb, htaken⟩ := dirAdd_root (T := T) hown hne
  have hstart₁ : (bufferToSb (g 0).val).inodeStart = 1 := by
    rw [hgrew.inodeStart, storeInode_zero (by decide)]
    exact hstart
  have hstart₂ : (bufferToSb (storeInode g 0 root 0).val).inodeStart = 1 := by
    rw [storeInode_zero (by decide)]
    exact hstart₁
  have hroot := hrep.storeInode (by decide : 0 < 256) root
  have hfound : ∀ {name r}, findEntry name 0 [dot, dotdot] = some r →
      Gives (sectors (T := T) rootDev) (attempt (dirLookup root name)) (storeInode g 0 root)
        (.ok (.ok r)) (storeInode g 0 root) := by
    intro name r hname
    have h := dirLookup_gives (T := T) hroot name
    rw [hname] at h
    exact h.attempt_ok
  have hupdate : Gives (sectors (T := T) rootDev) (updateInode rootInum root) g (.ok ())
      (storeInode g 0 root) :=
    updateInode_gives hstart₁ (by decide) hrep.device
  have hread : Gives (sectors (T := T) rootDev) (readInode rootDev rootInum) (storeInode g 0 root)
      (.ok root) (storeInode g 0 root) :=
    readInode_gives hstart₂ (by decide) (slot_storeInode_self g 0 root)
  unfold makeRoot
  refine halloc.then ((gives_require rfl).then (hadd.withLocal_ok.then ?_))
  refine hupdate.then (hread.then ?_)
  refine (gives_require rfl).then ((gives_require rfl).then ((gives_require rfl).then ?_))
  refine (hfound findEntry_root.1).then ((gives_require rfl).then ?_)
  refine (hfound findEntry_root.2).then ?_
  refine (gives_require rfl).ends ⟨rfl, ?_, root, b, st', ?_, hroot, fun n c hc => ?_⟩
  · intro k hk hk'
    have htable : slot g k = slot (storeInode f 0 (freshInode .directory rootDev)) k := by
      rw [slot, hgrew.table hown (isTable_tableBlock hk'), slot]
    rw [slot_storeInode_other (by decide) hk' (by omega), htable,
      slot_storeInode_other (by decide) hk' (by omega)]
  · refine ⟨hstart₂, slot_storeInode_self g 0 root, hroot.type_, hroot.size, hb,
      hroot.own.freelist, fun a => ?_⟩
    subst htaken
    rw [← hst a]
    exact hfree.mem_rest a
  · by_cases h0 : c = 0
    · rw [h0]
      decide
    · cases hgrew.gained n c hc h0 with
      | inl hfresh => exact absurd (freshInode_blocks hfresh) h0
      | inr hgone => exact ((hst c).mp hgone.1).2

/-- A used slot 0 is not the root's: an assertion fails, or the table has no room or no
    inodes. -/
theorem makeRoot_refused (hdisk : sectors (T := T) 0 = sectors rootDev)
    (hstart : (bufferToSb (f 0).val).inodeStart = 1) (hslot : isUnused f 0 = false) :
    Ends (sectors (T := T) rootDev) makeRoot f fun o _ => o ≠ .ok () := by
  have halloc : Ends (sectors (T := T) rootDev) (allocInode 0 (freshInode .directory rootDev)) f
      fun o _ => o ≠ .ok 0 := by
    rw [← hdisk]
    exact allocInode_ne_zero hstart nofun hslot
  unfold makeRoot
  refine ends_bind_of halloc (fun inum g hne => ?_) (fun _ _ _ => nofun) (fun _ _ => nofun)
  exact ends_bind (ends_require (fun e => absurd (congrArg Outcome.ok e) hne) fun _ => nofun)

end Root

/-! ## 5. The whole of `mkfs` -/

/-- Slot `k` of the new table is unused once the old table is cleared: it is one of the 256 blocks
    from the old table start on, or was unused already. -/
def Vacated (f : Sectors) (k : Nat) : Prop :=
  (tableStart f ≤ 1 + k ∧ 1 + k < tableStart f + 256) ∨ isUnused f k = true

theorem Clearing.isUnused {f g : Sectors} (h : Clearing f [] g) {k : Nat} (hk : k < 256) :
    isUnused g k = true ↔ Vacated f k := by
  by_cases hin : tableStart f ≤ 1 + k ∧ 1 + k < tableStart f + 256
  · have hcleared := h.cleared (1 + k - tableStart f) (by omega) List.not_mem_nil
    have hsum : tableStart f + (1 + k - tableStart f) = 1 + k := by omega
    rw [hsum] at hcleared
    exact iff_of_true (isUnused_iff.mpr ⟨unusedInode, hcleared, rfl⟩) (Or.inl hin)
  · have hsame : SimpleFs.isUnused g k = SimpleFs.isUnused f k := by
      rw [SimpleFs.isUnused, slot, h.others (tableBlock k) (by rw [toNat_tableBlock hk]; omega)]
      rfl
    rw [hsame]
    exact (or_iff_right hin).symm

/-- The new superblock. -/
def newSb : Sector :=
  ⟨splice zeroBlock 0 (sbBytes tmpSb), by
    have hlen : zeroBlock.length = 512 := List.length_replicate
    rw [length_splice (by rw [length_sbBytes, hlen]; decide), hlen]⟩

section Whole

variable {T : Type} [Disk T] [FaultFree T] {f : Sectors}

/-- **What `mkfs` does with a table start that does not overflow.** -/
theorem mkfs_ends (hdisk : sectors (T := T) 0 = sectors rootDev)
    (hfit : tableStart f + 255 < 2 ^ 32) :
    Ends (sectors (T := T) rootDev) mkfs f fun o g =>
      (Vacated f 0 → o = .ok () ∧
        (∀ k, 1 ≤ k → k < 256 → (isUnused g k = true ↔ Vacated f k)) ∧
        ∃ root b st, Formatted g root b st ∧ DirRep rootDev g root st [dot, dotdot] ∧
          OnImage root) ∧
      (¬ Vacated f 0 → o ≠ .ok ()) := by
  unfold mkfs
  rw [← hdisk]
  refine ends_bind_of (clearInodes_ends hfit) ?_ (fun e g hg => nomatch hg.1)
    (fun g hg => nomatch hg.1)
  intro _ g hg
  have hclear := hg.2
  have hsb : bufferToSb newSb.val = tmpSb := bufferToSb_splice zeroBlock tmpSb
  have hwrite : Gives (sectors (T := T) 0) (diskWrite newSb.val 0 superblockAddr) g (.ok 512)
      (Function.update g 0 newSb) := diskWrite_block newSb.property
  have hread : Gives (sectors (T := T) 0) (diskRead newSb.val 0 superblockAddr)
      (Function.update g 0 newSb) (.ok (Function.update g 0 newSb superblockAddr).val)
      (Function.update g 0 newSb) := diskRead_block newSb.property
  refine hwrite.then (hread.then ((gives_require hsb).then ?_))
  have hzero : Function.update g 0 newSb 0 = newSb := Function.update_self _ _ _
  have hempty : freelistHead (Function.update g 0 newSb) = 0 := by
    rw [freelistHead, hzero, hsb]
    rfl
  refine ends_bind_of (freeBlocks_ends hempty) ?_ (fun e w hw => nomatch hw.1)
    (fun w hw => nomatch hw.1)
  intro _ h hh
  have hfreed := hh.2
  obtain ⟨freed, hsplit, hfree⟩ := hfreed.freed
  rw [List.append_nil] at hsplit
  subst hsplit
  have hstart : (bufferToSb (h 0).val).inodeStart = 1 := by
    obtain ⟨addr, haddr⟩ := hfreed.superblock
    rw [haddr, hzero, hsb]
    rfl
  -- freeing the data blocks does not touch the table, and neither does the superblock
  have hunused : ∀ k, k < 256 → (isUnused h k = true ↔ Vacated f k) := by
    intro k hk
    have htable := isTable_tableBlock hk
    rw [← hclear.isUnused hk, isUnused, slot, hfreed.table _ htable,
      Function.update_of_ne htable.ne_zero]
    rfl
  rw [hdisk]
  by_cases h0 : isUnused h 0 = true
  · refine ends_mono (makeRoot_ends hdisk hstart hfree mem_dataStack_dataBlocks h0) ?_
    intro o w hw
    obtain ⟨hok, hslots, hroot⟩ := hw
    refine ⟨fun _ => ⟨hok, fun k hk hk' => ?_, hroot⟩,
      fun hn => absurd ((hunused 0 (by decide)).mp h0) hn⟩
    rw [← hunused k hk', isUnused, hslots k hk hk']
    rfl
  · refine ends_mono (makeRoot_refused hdisk hstart (by simpa using h0)) ?_
    intro o w hne
    exact ⟨fun hv => absurd ((hunused 0 (by decide)).mpr hv) h0, fun _ => hne⟩

/-- A table start that overflows makes `mkfs` panic. -/
theorem mkfs_overflows (hdisk : sectors (T := T) 0 = sectors rootDev)
    (hover : 2 ^ 32 ≤ tableStart f + 255) :
    Ends (sectors (T := T) rootDev) mkfs f fun o _ => o = .panic := by
  unfold mkfs
  rw [← hdisk]
  exact ends_bind_of (clearInodes_overflows hover) (fun _ _ h => nomatch h) (fun _ _ h => nomatch h)
    (fun _ _ => rfl)

/-- **`mkfs` formats a disk exactly when the old table start does not overflow and every slot of
    the new table that the first loop misses was unused.** Device numbers 0 and `ROOT_DEV` name
    the disk. Formatted: the table starts at block 1, slot `ROOT_INUM` is a directory of two
    entries in which `.` and `..` look up to `ROOT_INUM`, the other slots are unused, and the
    freelist holds exactly the data blocks other than the root directory's. -/
theorem mkfs_formats_iff (hD : OneDisk T {0, rootDev}) (d : T) :
    ((mkfs d).1 = .ok () ∧ ∃ root b st, Formatted (sectors rootDev (mkfs d).2) root b st ∧
        (∀ name ∈ [[46], [46, 46]],
          ∃ off, (dirLookup root name (mkfs d).2).1 = .ok (rootInum, off)) ∧
        ∀ k, 1 ≤ k → k < numInodes →
          ∃ i, slot (sectors rootDev (mkfs d).2) k = some i ∧ i.type_ = .unused) ↔
      tableStart (sectors rootDev d) + 255 < 2 ^ 32 ∧
        ∀ k, k < numInodes → Vacated (sectors rootDev d) k := by
  have hdisk : sectors (T := T) 0 = sectors rootDev := hD 0 (by simp) rootDev (by simp)
  by_cases hfit : tableStart (sectors rootDev d) + 255 < 2 ^ 32
  · obtain ⟨hok, hno⟩ := mkfs_ends hdisk hfit d rfl
    constructor
    · intro ⟨hret, root, b, st, hform, _, hothers⟩
      refine ⟨hfit, fun k hk => ?_⟩
      have h0 : Vacated (sectors rootDev d) 0 := not_not.mp fun hn => hno hn hret
      obtain ⟨_, hslots, _⟩ := hok h0
      cases Nat.eq_zero_or_pos k with
      | inl e => exact e ▸ h0
      | inr hpos => exact (hslots k hpos hk).mp (isUnused_iff.mpr (hothers k hpos hk))
    · intro ⟨_, hall⟩
      obtain ⟨hret, hslots, root, b, st, hform, hrep, _⟩ := hok (hall 0 (by decide))
      refine ⟨hret, root, b, st, hform, fun name hname => ?_,
        fun k hk hk' => isUnused_iff.mp ((hslots k hk hk').mpr (hall k hk'))⟩
      have hlook := (dirLookup_gives (T := T) hrep name (mkfs d).2 rfl).1
      cases List.mem_cons.mp hname with
      | inl e =>
        rw [e, findEntry_root.1] at hlook
        exact ⟨0, e ▸ hlook⟩
      | inr hname =>
        have e := List.mem_singleton.mp hname
        rw [e, findEntry_root.2] at hlook
        exact ⟨direntSize, e ▸ hlook⟩
  · have hpanic := mkfs_overflows hdisk (Nat.le_of_not_lt hfit) d rfl
    refine iff_of_false (fun h => ?_) fun h => hfit h.1
    rw [hpanic] at h
    cases h.1

end Whole

/-! ## 6. The image file -/

/-- `DiskFile`, on an image that is long enough. The device number is ignored. -/
structure DiskFile where
  sector : Sectors

instance : Disk DiskFile where
  read _ s := fun x =>
    if x.2.length ≤ 512 then (.ok (), (x.1, (x.1.sector s).val.take x.2.length)) else (.panic, x)
  write buf _ s := fun x =>
    if buf.length ≤ 512 then
      (.ok buf.length, ⟨Function.update x.sector s ((x.sector s).overwrite buf)⟩)
    else (.panic, x)
  length_read _ s x := by
    have := (x.1.sector s).property
    split
    · simp only [List.length_take]
      omega
    · rfl

instance : FaultFree DiskFile where
  contents x _ := x.sector
  read_spec x buf dev s h := by
    simp only [Disk.read, if_pos h, and_self]
  write_spec x buf dev s h := by
    simp only [Disk.write, if_pos h, and_self]

/-- On an image file all device numbers name one disk. -/
theorem oneDisk_diskFile (D : Set UInt32) : OneDisk DiskFile D := fun _ _ _ _ => rfl

/-- An image of zeros. -/
def zeroImage : DiskFile := ⟨fun _ => Sector.zero⟩

theorem zeroImage_vacated (k : Nat) : Vacated (sectors rootDev zeroImage) k := by
  refine Or.inr (isUnused_iff.mpr ⟨unusedInode, ?_, rfl⟩)
  show inodeFrom Sector.zero.val 0 = some unusedInode
  decide +kernel

/-- An image of zeros is formatted. -/
theorem mkfs_formats_zeroImage :
    (mkfs zeroImage).1 = .ok () ∧
    ∃ root b st, Formatted (sectors rootDev (mkfs zeroImage).2) root b st := by
  obtain ⟨hok, root, b, st, hform, _⟩ :=
    (mkfs_formats_iff (oneDisk_diskFile {0, rootDev}) zeroImage).mpr
      ⟨by decide +kernel, fun k _ => zeroImage_vacated k⟩
  exact ⟨hok, root, b, st, hform⟩

/-- A sector that starts with the tag of a file. -/
def fileTag : Sector := ⟨1 :: List.replicate 511 0, by
  rw [List.length_cons, List.length_replicate]⟩

/-- An image of zeros but for block 256, which holds a file's inode. -/
def staleImage : DiskFile := ⟨Function.update (fun _ => Sector.zero) 256 fileTag⟩

/-- **`mkfs` leaves an old inode in the new table**: with a superblock of zeros it clears blocks
    0 to 255, reports success, and slot 255, in block 256, still holds the file. -/
theorem mkfs_keeps_stale_inode :
    (mkfs staleImage).1 = .ok () ∧
    isUnused (sectors rootDev (mkfs staleImage).2) 255 = false := by
  have hsb : sectors rootDev staleImage 0 = Sector.zero :=
    Function.update_of_ne (f := fun _ => Sector.zero) (by decide : (0 : UInt32) ≠ 256) fileTag
  have hstart : tableStart (sectors rootDev staleImage) = 0 := by
    rw [tableStart, hsb]
    decide +kernel
  have hstale : ¬ Vacated (sectors rootDev staleImage) 255 := by
    have hslot : isUnused (sectors rootDev staleImage) 255 = false := by
      have hblock : tableBlock 255 = 256 := rfl
      have hheld : sectors rootDev staleImage 256 = fileTag := by
        show Function.update (fun _ => Sector.zero) 256 fileTag 256 = fileTag
        rw [Function.update_self]
      rw [isUnused, slot, hblock, hheld]
      decide +kernel
    rw [Vacated, hstart, hslot]
    simp
  have hzero : Vacated (sectors rootDev staleImage) 0 := Or.inl (by rw [hstart]; decide)
  obtain ⟨hok, hslots, _⟩ := (mkfs_ends rfl (by rw [hstart]; decide) staleImage rfl).1 hzero
  refine ⟨hok, ?_⟩
  rw [← Bool.not_eq_true, hslots 255 (by decide) (by decide)]
  exact hstale

end Sprocket.SimpleFs
