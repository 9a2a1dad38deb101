/-
  File:      Sprocket/SimpleFs/Faults.lean
  Subject:   THE FREELIST WHEN A DISK CALL FAILS.

  `Faulty T` is a fault-free disk one of whose calls fails: the calls before it take effect, the
  failing one changes no sector and returns an error, which ends `alloc_block` and `free_block` at
  once. A fault may leak blocks; it must not leave a freelist that holds a block in use.

  * `allocBlock_survives` -- a fault inside `alloc_block` leaves a freelist made of blocks that were
    free before;
  * `freeBlock_survives`, `freeBlock_faulted_first`, `freeBlock_faulted_link` -- `free_block` points
    the superblock to the freed block BEFORE it writes that block as a link block. Where it does so
    and the second write fails, the file data left in the block is read as links;
  * `freelist_survives_fault_iff` -- so the freelist survives every fault exactly when the head link
    block has room, or the old contents of the freed block happen to be harmless links.
-/
import Sprocket.SimpleFs.Blocks
import Sprocket.SimpleFs.FreelistRuns

namespace Sprocket.SimpleFs

open Bytes Prog

/-! ## 1. A disk with a failing call -/

/-- A disk one of whose calls fails: `left` counts the calls before that one. -/
structure Faulty (T : Type) where
  disk : T
  left : Option Nat

namespace Faulty

variable {T : Type} [Disk T]

instance : Disk (Faulty T) where
  read dev s := fun x =>
    if x.1.left = some 0 then (.err .ioError, (⟨x.1.disk, none⟩, x.2))
    else
      ((Disk.read dev s (x.1.disk, x.2)).1,
        (⟨(Disk.read dev s (x.1.disk, x.2)).2.1, x.1.left.map (· - 1)⟩,
          (Disk.read dev s (x.1.disk, x.2)).2.2))
  write buf dev s := fun x =>
    if x.left = some 0 then (.err .ioError, ⟨x.disk, none⟩)
    else ((Disk.write buf dev s x.disk).1, ⟨(Disk.write buf dev s x.disk).2, x.left.map (· - 1)⟩)
  length_read dev s x := by
    split
    · rfl
    · exact Disk.length_read dev s (x.1.disk, x.2)

variable [FaultFree T] {dev s : UInt32} {f : Sectors} {buf : List UInt8}

/-- The sectors of one device, beside the calls that are left. -/
def view (dev : UInt32) (x : Faulty T) : Sectors × Option Nat := (sectors dev x.disk, x.left)

/-- A read, if it is not the call that fails. -/
theorem diskRead_ok {left : Option Nat} (hleft : left ≠ some 0) (h : buf.length = 512) :
    Gives (view (T := T) dev) (diskRead buf dev s) (f, left) (.ok (f s).val)
      (f, left.map (· - 1)) := by
  refine gives_diskRead ?_
  rintro ⟨d, n⟩ hd
  obtain ⟨rfl, rfl⟩ := Prod.mk.inj hd
  obtain ⟨h1, h2, h3⟩ := FaultFree.read_spec d buf dev s (le_of_eq h)
  rw [h, List.take_of_length_le (le_of_eq (FaultFree.contents d dev s).property)] at h2
  dsimp only [Disk.read]
  rw [if_neg hleft]
  exact ⟨h1, Prod.ext (congrFun h3 dev) rfl, h2⟩

/-- A whole block is written, if this is not the call that fails. -/
theorem diskWrite_ok {left : Option Nat} (hleft : left ≠ some 0) (h : buf.length = 512) :
    Gives (view (T := T) dev) (diskWrite buf dev s) (f, left) (.ok 512)
      (Function.update f s ⟨buf, h⟩, left.map (· - 1)) := by
  refine gives_diskWrite ?_
  rintro ⟨d, n⟩ hd
  obtain ⟨rfl, rfl⟩ := Prod.mk.inj hd
  obtain ⟨h1, h2⟩ := FaultFree.write_spec d buf dev s (le_of_eq h)
  dsimp only [Disk.write]
  rw [if_neg hleft]
  refine ⟨h1.trans (congrArg Outcome.ok h), Prod.ext ?_ rfl⟩
  rw [← Sector.overwrite_full (sectors dev d s) h]
  exact h2

/-- The call that fails changes no sector. -/
theorem diskRead_fails :
    Gives (view (T := T) dev) (diskRead buf dev s) (f, some 0) (.err (.diskFault .ioError))
      (f, none) := by
  refine gives_diskRead_err ?_
  rintro ⟨d, n⟩ hd
  obtain ⟨rfl, rfl⟩ := Prod.mk.inj hd
  exact ⟨rfl, rfl⟩

theorem diskWrite_fails :
    Gives (view (T := T) dev) (diskWrite buf dev s) (f, some 0) (.err (.diskFault .ioError))
      (f, none) := by
  refine gives_diskWrite_err ?_
  rintro ⟨d, n⟩ hd
  obtain ⟨rfl, rfl⟩ := Prod.mk.inj hd
  exact ⟨rfl, rfl⟩

section Anywhere

variable {left : Option Nat} {α : Type} {P : Sectors → Prop}

/-- However the code ends, the sectors meet `P` -- wherever the fault strikes. -/
def Leaves (dev : UInt32) (m : Prog (Faulty T) FsError α) (f : Sectors) (P : Sectors → Prop) :
    Prop := ∀ left, Ends (view dev) m (f, left) fun _ w => P w.1

/-- A read: it may be the call that fails. -/
theorem leaves_read {k : List UInt8 → Prog (Faulty T) FsError α} (h : buf.length = 512)
    (hf : P f) (hk : Leaves dev (k (f s).val) f P) :
    Leaves dev (diskRead buf dev s >>= k) f P := by
  intro left
  by_cases hleft : left = some 0
  · subst hleft
    exact Gives.ends (Gives.then_err diskRead_fails) hf
  · exact (diskRead_ok hleft h).then (hk _)

/-- A write: if it is the call that fails, the sectors are as before it. -/
theorem leaves_write {k : Nat → Prog (Faulty T) FsError α} (h : buf.length = 512) (hf : P f)
    (hk : Leaves dev (k 512) (Function.update f s ⟨buf, h⟩) P) :
    Leaves dev (diskWrite buf dev s >>= k) f P := by
  intro left
  by_cases hleft : left = some 0
  · subst hleft
    exact Gives.ends (Gives.then_err diskWrite_fails) hf
  · exact (diskWrite_ok hleft h).then (hk _)

theorem leaves_word {block : List UInt8} {i : Nat} {v : UInt32}
    {k : UInt32 → Prog (Faulty T) FsError α} (h : (words block)[i]? = some v)
    (hk : Leaves dev (k v) f P) : Leaves dev (wordAt block i >>= k) f P :=
  fun left => Gives.then (gives_ofOption h) (hk left)

theorem leaves_pure {a : α} (hf : P f) : Leaves (T := T) dev (pure a) f P :=
  fun _ => ends_pure hf

theorem leaves_fail {e : FsError} (hf : P f) : Leaves (T := T) (α := α) dev (fail e) f P :=
  fun _ => ends_fail hf

end Anywhere

end Faulty

/-! ## 2. A freelist that hands out no block in use -/

/-- The sectors hold a freelist, all of its blocks among `allowed`. -/
def FreeWithin (allowed : List UInt32) (f : Sectors) : Prop := ∃ st, Freelist f st ∧ st ⊆ allowed

/-- The block is the head of a chain of link blocks, all of its blocks among `allowed`. -/
def LinksWithin (f : Sectors) (b : UInt32) (allowed : List UInt32) : Prop :=
  ∃ chain, Chain f b chain ∧ (∀ x ∈ stackOf chain, x ≠ 0) ∧ (stackOf chain).Nodup ∧
    stackOf chain ⊆ allowed

/-- The head link block of the freelist has room for an entry. -/
def HeadHasRoom (f : Sectors) : Prop :=
  freelistHead f ≠ 0 ∧ 0 ∈ (words (f (freelistHead f)).val).drop 1

section Safe

variable {f : Sectors} {b : UInt32} {st : List UInt32} {l : Link} {rest : List Link}

theorem FreelistRep.freeWithin {chain : List Link} (hr : FreelistRep f chain)
    (h : stackOf chain ⊆ st) : FreeWithin st f := ⟨_, ⟨chain, hr, rfl⟩, h⟩

/-- With the superblock pointing to `b`, the freelist is what the contents of `b` say. -/
theorem freeWithin_head_iff :
    FreeWithin st (Function.update f 0 (sbWith f b)) ↔ LinksWithin f b st := by
  -- the superblock is not on the chain, so the chain reads the same
  have hsame : ∀ {g h : Sectors} {chain : List Link}, (∀ x ≠ 0, h x = g x) →
      (∀ x ∈ stackOf chain, x ≠ 0) → Chain g b chain → Chain h b chain :=
    fun hgh hz hc => chain_congr hc fun l hl => hgh _ (hz _ (addr_mem_stackOf hl))
  have hother : ∀ x ≠ 0, Function.update f 0 (sbWith f b) x = f x :=
    fun x hx => Function.update_of_ne hx _ _
  constructor
  · intro h
    obtain ⟨_, ⟨chain, hr, rfl⟩, hsub⟩ := h
    have hlinked := hr.linked
    rw [freelistHead_sbWith] at hlinked
    exact ⟨chain, hsame (fun x hx => (hother x hx).symm) hr.nonzero hlinked, hr.nonzero, hr.nodup,
      hsub⟩
  · intro h
    obtain ⟨chain, hc, hz, hnd, hsub⟩ := h
    refine ⟨stackOf chain, ⟨chain, ⟨?_, hz, hnd⟩, rfl⟩, hsub⟩
    rw [freelistHead_sbWith]
    exact hsame hother hz hc

theorem headHasRoom_iff (hr : FreelistRep f (l :: rest)) :
    HeadHasRoom f ↔ l.entries.length < 127 := by
  obtain ⟨hl, next, ⟨hlen, hw⟩, _⟩ := hr.linked
  have hents : (0 : UInt32) ∉ l.entries := fun h => hr.entries_ne_zero 0 h rfl
  rw [HeadHasRoom, hl, hw, List.drop_one, List.tail_cons, List.mem_append, List.mem_replicate]
  constructor
  · intro h
    have := (h.2.resolve_left hents).1
    omega
  · intro h
    exact ⟨hr.addr_ne_zero, Or.inr ⟨by omega, rfl⟩⟩

end Safe

/-! ## 3. The two calls -/

section Calls

open Faulty

variable {T : Type} [Disk T] [FaultFree T] (dev : UInt32) {f : Sectors} {st : List UInt32}

/-- **A fault inside `alloc_block` leaks at most.** Before its first write the freelist is the old
    one. Between the two writes the allocated entry is gone from the list, or, where the head link
    block itself is allocated, that block is zeroed and is the whole list. -/
theorem allocBlock_survives (h : Freelist f st) :
    Leaves (T := T) dev (allocBlock dev) f (FreeWithin st) := by
  obtain ⟨chain, hr, rfl⟩ := h
  have hold : FreeWithin (stackOf chain) f := hr.freeWithin (List.Subset.refl _)
  unfold allocBlock
  refine leaves_read List.length_replicate hold ?_
  cases chain with
  | nil =>
    have h0 : (bufferToSb (f 0).val).freelistStart = 0 := hr.linked
    rw [if_pos h0]
    exact leaves_fail hold
  | cons l rest =>
    have hl : (bufferToSb (f 0).val).freelistStart = l.addr := hr.linked.1
    rw [hl, if_neg hr.addr_ne_zero]
    refine leaves_read (f 0).property hold ?_
    cases List.eq_nil_or_concat' l.entries with
    | inl hes =>
      have hst : stackOf (l :: rest) = l.addr :: stackOf rest := by
        rw [stackOf_cons, hes]
        simp
      obtain ⟨hnone, next, hnext, hrest⟩ := hr.noEntry hes
      rw [hnone]
      refine leaves_word hnext (leaves_read List.length_replicate hold ?_)
      refine leaves_write List.length_replicate hold ?_
      refine leaves_write (length_setFreelistStart next (f 0).property) ?_ (leaves_pure ?_)
      · refine (freelistRep_single hr.addr_ne_zero ?_ (Function.update_self _ _ _)).freeWithin ?_
        · rw [freelistHead_update _ hr.addr_ne_zero]
          exact hl
        · simp [stackOf, Link.stack]
      · refine (hr.dropLink hes hrest Sector.zero).freeWithin ?_
        rw [hst]
        exact List.subset_cons_self _ _
    | inr hcons =>
      obtain ⟨es, e, hes⟩ := hcons
      have hlast := hr.lastEntry hes
      have hfresh := hr.lastEntry_fresh hes
      have hsub : stackOf ({ l with entries := es } :: rest) ⊆ stackOf (l :: rest) := by
        rw [stackOf_dropEntry rest hes]
        exact List.subset_cons_self _ _
      have hdrop := hr.dropEntry hes (x := ⟨_, hlast.length⟩) rfl
      rw [hlast.found]
      refine leaves_word hlast.word (leaves_write hlast.length hold ?_)
      refine leaves_write List.length_replicate (hdrop.freeWithin hsub) (leaves_pure ?_)
      exact (hdrop.elsewhere Sector.zero hlast.nonzero hfresh).freeWithin hsub

variable {b : UInt32}

/-- **Where the head has room, or the old contents of the block are harmless links, a fault inside
    `free_block` leaks at most.** -/
theorem freeBlock_survives (h : Freelist f st) (hb : b ≠ 0) (hnew : b ∉ st)
    (hcond : HeadHasRoom f ∨ LinksWithin f b (b :: st)) :
    Leaves (T := T) dev (freeBlock dev b) f (FreeWithin (b :: st)) := by
  obtain ⟨chain, hr, rfl⟩ := h
  have hold : FreeWithin (b :: stackOf chain) f := hr.freeWithin (List.subset_cons_self _ _)
  unfold freeBlock
  refine leaves_read List.length_replicate hold ?_
  cases chain with
  | nil =>
    have h0 : (bufferToSb (f 0).val).freelistStart = 0 := hr.linked
    have hlinks := hcond.resolve_left fun h => h.1 h0
    rw [if_pos h0]
    refine leaves_write (length_setFreelistStart b (f 0).property) hold ?_
    refine leaves_write List.length_replicate (freeWithin_head_iff.mpr hlinks) (leaves_pure ?_)
    refine (freelistRep_single hb ?_ (Function.update_self _ _ _)).freeWithin ?_
    · rw [freelistHead_update _ hb]
      exact freelistHead_sbWith f b
    · simp [stackOf, Link.stack]
  | cons l rest =>
    have hl : (bufferToSb (f 0).val).freelistStart = l.addr := hr.linked.1
    rw [hl, if_neg hr.addr_ne_zero]
    refine leaves_read List.length_replicate hold ?_
    by_cases hroom : l.entries.length < 127
    · have hset : (setWord (f l.addr).val (l.entries.length + 1) b).length = 512 :=
        setWord_length_512 _ (f l.addr).property (by omega)
      rw [hr.firstRoom hroom]
      refine leaves_write hset hold (leaves_pure ?_)
      refine (hr.addEntry hroom hb hnew rfl).freeWithin ?_
      simp [stackOf_cons]
    · have hlinks := hcond.resolve_left fun h => hroom ((headHasRoom_iff hr).mp h)
      have hset : (setWord zeroBlock 0 l.addr).length = 512 :=
        setWord_length_512 _ List.length_replicate (by omega)
      rw [hr.noRoom (Nat.le_of_not_lt hroom)]
      refine leaves_write (length_setFreelistStart b (f 0).property) hold ?_
      refine leaves_write hset (freeWithin_head_iff.mpr hlinks) (leaves_pure ?_)
      refine (hr.addLink hb hnew rfl).freeWithin ?_
      simp [stackOf_cons]

/-- On an empty freelist the third call of `free_block` is the write that clears the block: if it
    fails, the superblock already points to the block. -/
theorem freeBlock_faulted_first (hf : freelistHead f = 0) :
    Gives (view (T := T) dev) (freeBlock dev b) (f, some 2) (.err (.diskFault .ioError))
      (Function.update f 0 (sbWith f b), none) := by
  have h0 : (bufferToSb (f 0).val).freelistStart = 0 := hf
  unfold freeBlock
  refine (diskRead_ok (by decide) List.length_replicate).then ?_
  rw [if_pos h0]
  refine (diskWrite_ok (by decide) (length_setFreelistStart b (f 0).property)).then ?_
  exact Gives.then_err diskWrite_fails

/-- With a full head link block it is the fourth call. -/
theorem freeBlock_faulted_link {l : Link} {rest : List Link} (hr : FreelistRep f (l :: rest))
    (hfull : l.entries.length = 127) :
    Gives (view (T := T) dev) (freeBlock dev b) (f, some 3) (.err (.diskFault .ioError))
      (Function.update f 0 (sbWith f b), none) := by
  have hl : (bufferToSb (f 0).val).freelistStart = l.addr := hr.linked.1
  unfold freeBlock
  refine (diskRead_ok (by decide) List.length_replicate).then ?_
  rw [hl, if_neg hr.addr_ne_zero]
  refine (diskRead_ok (by decide) List.length_replicate).then ?_
  rw [hr.noRoom (Nat.le_of_eq hfull.symm)]
  refine (diskWrite_ok (by decide) (length_setFreelistStart b (f 0).property)).then ?_
  exact Gives.then_err diskWrite_fails

/-- Where the head has no room, some fault leaves the superblock pointing to the block as it is. -/
theorem freeBlock_faulted (h : Freelist f st) (hroom : ¬ HeadHasRoom f) :
    ∃ k, Gives (view (T := T) dev) (freeBlock dev b) (f, some k) (.err (.diskFault .ioError))
      (Function.update f 0 (sbWith f b), none) := by
  obtain ⟨chain, hr, rfl⟩ := h
  cases chain with
  | nil => exact ⟨2, freeBlock_faulted_first dev hr.linked⟩
  | cons l rest =>
    obtain ⟨_, _, ⟨hlen, _⟩, _⟩ := hr.linked
    rw [headHasRoom_iff hr] at hroom
    exact ⟨3, freeBlock_faulted_link dev hr (by omega)⟩

/-- **The freelist survives every fault exactly when no in-use data can be read as links.** A fault
    at any call of `alloc_block` leaves a freelist made of blocks that were free before. A fault at
    any call of `free_block(b)` leaves one made of such blocks and `b` if and only if the head link
    block has room for `b`, or the old contents of `b` already are a chain of such blocks. -/
theorem freelist_survives_fault_iff {d : T} (hd : Freelist (sectors dev d) st) (hb : IsData b)
    (hnew : b ∉ st) :
    (∀ k, FreeWithin st (sectors dev (allocBlock dev (⟨d, some k⟩ : Faulty T)).2.disk)) ∧
    ((∀ k, FreeWithin (b :: st) (sectors dev (freeBlock dev b (⟨d, some k⟩ : Faulty T)).2.disk)) ↔
      HeadHasRoom (sectors dev d) ∨ LinksWithin (sectors dev d) b (b :: st)) := by
  refine ⟨fun k => allocBlock_survives dev hd (some k) ⟨d, some k⟩ rfl, ?_, ?_⟩
  · intro hall
    by_cases hroom : HeadHasRoom (sectors dev d)
    · exact Or.inl hroom
    · obtain ⟨k, hk⟩ := freeBlock_faulted (T := T) (b := b) dev hd hroom
      have hview := (Prod.mk.inj (hk ⟨d, some k⟩ rfl).2).1
      have hfree := hall k
      rw [hview] at hfree
      exact Or.inr (freeWithin_head_iff.mp hfree)
  · intro hcond k
    exact freeBlock_survives dev hd hb.ne_zero hnew hcond (some k) ⟨d, some k⟩ rfl

end Calls

/-- Freeing block 300 of a disk with one free block, whose head has room: after a fault at the
    third call the freelist is made of these two. -/
theorem freelist_survives_fault_oneBlock : FreeWithin [300, 257]
    (sectors 1 (freeBlock 1 300 (⟨oneBlockDisk, some 2⟩ : Faulty MemDisk)).2.disk) := by
  refine ((freelist_survives_fault_iff 1 (oneBlockDisk_wellFormed 1).freelist ?_ ?_).2.mpr ?_) 2
  · exact (by decide : 257 ≤ (300 : UInt32).toNat)
  · decide
  · refine Or.inl ⟨?_, ?_⟩
    · decide +kernel
    · decide +kernel

/-- Block 300 holds a file: zeros, but for the number 301 in its second word. -/
def fileBlock : Sector :=
  ⟨le32 0 ++ (le32 301 ++ List.replicate 504 0), by
    simp only [List.length_append, length_le32, List.length_replicate]⟩

/-- A disk with an empty freelist and that file on it. -/
def fileDisk : MemDisk := ⟨fun _ => Function.update (fun _ => Sector.zero) 300 fileBlock⟩

/-- **A fault in `free_block` makes a block in use allocatable.** The freelist is empty and block
    300 is freed; the write that clears it fails. The freelist on the disk then holds block 301,
    which nobody freed, and the next `alloc_block` hands it out. -/
theorem freeBlock_fault_frees_data :
    Freelist (sectors 1 fileDisk) [] ∧
      (freeBlock 1 300 (⟨fileDisk, some 2⟩ : Faulty MemDisk)).1 = .err (.diskFault .ioError) ∧
      ¬ FreeWithin [300]
        (sectors 1 (freeBlock 1 300 (⟨fileDisk, some 2⟩ : Faulty MemDisk)).2.disk) ∧
      (allocBlock 1 (freeBlock 1 300 (⟨fileDisk, some 2⟩ : Faulty MemDisk)).2).1 = .ok 301 := by
  have hhead : freelistHead (sectors 1 fileDisk) = 0 := by decide +kernel
  have hgives := freeBlock_faulted_first (T := MemDisk) 1 (b := 300) hhead ⟨fileDisk, some 2⟩ rfl
  refine ⟨freelist_nil_iff.mpr hhead, hgives.1, ?_, by decide +kernel⟩
  rw [(Prod.mk.inj hgives.2).1, freeWithin_head_iff]
  intro h
  obtain ⟨chain, hc, hz, _, hsub⟩ := h
  cases chain with
  | nil =>
    have h0 : (300 : UInt32) = 0 := hc
    exact absurd h0 (by decide)
  | cons l rest =>
    obtain ⟨hl, next, ⟨_, hw⟩, _⟩ := hc
    -- word 1 of the block is its first entry
    have hword : (words (sectors 1 fileDisk 300).val)[1]? = some 301 := by decide +kernel
    rw [hl, hw] at hword
    cases he : l.entries with
    | nil =>
      rw [he] at hword
      simp at hword
    | cons e es =>
      rw [he] at hword
      have he301 : e = 301 := by simpa using hword
      have hmem : (301 : UInt32) ∈ stackOf (l :: rest) := by
        rw [stackOf_cons, he, he301]
        simp
      exact absurd (hsub hmem) (by decide)

end Sprocket.SimpleFs
