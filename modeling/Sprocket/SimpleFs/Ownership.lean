/-
  File:      Sprocket/SimpleFs/Ownership.lean
  Subject:   BLOCK OWNERSHIP: no call through one inode touches another inode's blocks.

  `write` and `dir_add` are followed branch by branch, for every argument and however they end:
  each disk write they make goes to a block their inode maps, or is part of an allocation. So a
  call takes the disk and the inode from `Own` to `Own` by a `Grew` (`write_keeps`,
  `dirAdd_keeps`). A family of inodes whose blocks are apart then stays a family whose blocks are
  apart, over every run of such calls (`family_stays_apart`).
-/
import Sprocket.Lib.Trace
import Sprocket.SimpleFs.Blocks

namespace Sprocket.SimpleFs

open Bytes Prog

/-! ## 1. Reading changes nothing -/

theorem chunkBounds_width {lo hi : Nat} : ∀ p ∈ chunkBounds lo hi, p.2 - p.1 ≤ 512 := by
  intro p hp
  fun_induction chunkBounds lo hi with
  | case1 lo h ih =>
    rcases List.mem_cons.mp hp with rfl | hp
    · simp only [blockSize]
      omega
    · exact ih hp
  | case2 lo h => exact absurd hp List.not_mem_nil

section Reading

variable {T : Type} [Disk T] [FaultFree T] {dev : UInt32} {f : Sectors}

/-- The view of a disk and a buffer. -/
abbrev bufView (dev : UInt32) : T × List UInt8 → Sectors × List UInt8 := onView (sectors dev)

theorem diskRead_keeps (buf : List UInt8) (h : buf.length ≤ 512) (s : UInt32) :
    Keeps (sectors (T := T) dev) (diskRead buf dev s) (· = f) := by
  rintro v rfl
  exact (diskRead_gives h).ends rfl

theorem bmap_keeps {σ υ : Type} {view : σ → υ} {P : υ → Prop} (inode : Inode) (n : Nat) :
    Keeps view (bmap inode n) P := by
  unfold bmap
  refine keeps_bind (keeps_ofOption _) fun addr => ?_
  exact keeps_ite (keeps_fail _) (keeps_pure _)

/-- Reading a chunk in place leaves the sectors alone. -/
theorem readChunk_keeps (lo n : Nat) (hn : n ≤ 512) (s : UInt32) :
    Keeps (bufView (T := T) dev) (onPart (fun b => slice b lo n) (fun b c => splice b lo c)
      (mapErr FsError.diskFault (Disk.read dev s))) (fun w => w.1 = f) := by
  rintro ⟨v, buf⟩ hv
  refine ends_onPart (ends_mapErr ?_)
  rintro ⟨d, b⟩ hd
  obtain ⟨rfl, rfl⟩ := Prod.mk.inj hd
  have hlen : (slice buf lo n).length ≤ 512 := by
    rw [length_slice]
    omega
  obtain ⟨h1, _, h3⟩ := FaultFree.read_spec d _ dev s hlen
  rw [h1]
  exact (congrFun h3 dev).trans hv

theorem readChunks_keeps (inode : Inode) (hdev : inode.device = dev) :
    ∀ (bounds : List (Nat × Nat)) (offset : Nat), (∀ p ∈ bounds, p.2 - p.1 ≤ 512) →
      Keeps (bufView (T := T) dev) (readChunks inode bounds offset) (fun w => w.1 = f)
  | [], _, _ => keeps_pure ()
  | (lo, hi) :: rest, offset, hb => by
      unfold readChunks
      refine keeps_bind (bmap_keeps inode _) fun addr => ?_
      rw [hdev]
      refine keeps_bind (readChunk_keeps lo _ (hb _ List.mem_cons_self) addr) fun _ => ?_
      refine keeps_bind (fun w hw => ends_checkedAdd hw hw) fun o => ?_
      exact readChunks_keeps inode hdev rest o fun p hp => hb p (List.mem_cons_of_mem _ hp)

theorem readBytes_keeps (inode : Inode) (hdev : inode.device = dev) (offset len : Nat) :
    Keeps (bufView (T := T) dev) (readBytes inode offset len) (fun w => w.1 = f) := by
  unfold readBytes
  refine keeps_bind (bmap_keeps inode _) fun addr => ?_
  refine keeps_bind (fun w hw => ?_) fun tmp => ?_
  · rw [hdev]
    exact ends_onFst (diskRead_keeps zeroBlock (by simp [zeroBlock]) addr w.1 hw)
  refine keeps_bind ?_ fun _ => ?_
  · rintro ⟨v, buf⟩ hv ⟨d, b⟩ hd
    obtain ⟨rfl, rfl⟩ := Prod.mk.inj hd
    exact hv
  refine keeps_bind (fun w hw => ends_checkedAdd hw hw) fun o => ?_
  refine keeps_ite (keeps_pure _) ?_
  refine keeps_bind (keeps_require _) fun _ => ?_
  refine keeps_bind (readChunks_keeps inode hdev _ o chunkBounds_width) fun _ => ?_
  exact keeps_pure _

/-- **`read` changes no sector.** -/
theorem read_keeps (inode : Inode) (hdev : inode.device = dev) (offset : UInt32) :
    Keeps (bufView (T := T) dev) (read inode offset) (fun w => w.1 = f) := by
  unfold read
  have hbody : Keeps (bufView (T := T) dev) (do
      let dst ← theBuffer
      let len := dst.length % 2 ^ 32
      let offset := offset.toNat
      let size := inode.size.toNat
      if size < offset ∨ (offset + len) % 2 ^ 32 < offset then fail .readTooLarge
      else do
        let stop ← checkedAdd offset len
        let len := if size < stop then size - offset else len
        require (len ≤ dst.length)
        readBytes inode offset len) (fun w => w.1 = f) := by
    refine keeps_bind ?_ fun dst => ?_
    · rintro ⟨v, buf⟩ hv ⟨d, b⟩ hd
      obtain ⟨rfl, rfl⟩ := Prod.mk.inj hd
      exact hv
    refine keeps_ite (keeps_fail _) ?_
    refine keeps_bind (fun w hw => ends_checkedAdd hw hw) fun stop => ?_
    refine keeps_bind (keeps_require _) fun _ => ?_
    exact readBytes_keeps inode hdev _ _
  cases inode.type_ with
  | unused => exact keeps_fail _
  | file => exact hbody
  | directory => exact hbody

theorem readInto_keeps (inode : Inode) (hdev : inode.device = dev) (buf : List UInt8)
    (offset : UInt32) :
    Keeps (sectors (T := T) dev) (readInto inode buf offset) (· = f) := by
  intro v hv
  refine ends_withLocal (ends_mono (read_keeps inode hdev offset (v, buf) hv) fun o w hw => ?_)
  cases o <;> exact hw

theorem dirLookupIn_keeps (dir : Inode) (hdev : dir.device = dev) (name : List UInt8) :
    ∀ offsets : List Nat, Keeps (sectors (T := T) dev) (dirLookupIn dir name offsets) (· = f)
  | [] => keeps_fail _
  | offset :: rest => by
      unfold dirLookupIn
      refine keeps_bind (readInto_keeps dir hdev _ _) fun r => ?_
      refine keeps_ite (dirLookupIn_keeps dir hdev name rest) ?_
      exact keeps_ite (keeps_pure _) (dirLookupIn_keeps dir hdev name rest)

/-- **`dir_lookup` changes no sector.** -/
theorem dirLookup_keeps (dir : Inode) (hdev : dir.device = dev) (name : List UInt8) :
    Keeps (sectors (T := T) dev) (dirLookup dir name) (· = f) :=
  keeps_bind (keeps_require _) fun _ => dirLookupIn_keeps dir hdev name _

end Reading

/-! ## 2. Writing grows the inode -/

/-- What a disk and an inode may look like after writing through the inode. -/
def Reached (f : Sectors) (i : Inode) (st : List UInt32) (w : Sectors × Inode) : Prop :=
  ∃ st', Own w.1 w.2 st' ∧ Grew f i st w.1 w.2 st'

section Writing

variable {T : Type} [Disk T] [FaultFree T] {dev : UInt32} {f : Sectors} {i : Inode}
  {st : List UInt32}

theorem Reached.device {w : Sectors × Inode} (h : Reached f i st w) : w.2.device = i.device := by
  obtain ⟨_, _, hg⟩ := h
  exact hg.device

theorem Reached.write {w : Sectors × Inode} (h : Reached f i st w) {n : Nat} {b : UInt32}
    (hb : w.2.blocks[n]? = some b) (h0 : b ≠ 0) (x : Sector) :
    Reached f i st (Function.update w.1 b x, w.2) := by
  obtain ⟨st', ho, hg⟩ := h
  obtain ⟨ho', hg'⟩ := ho.write hb h0 x
  exact ⟨st', ho', hg.trans hg'⟩

theorem Reached.resize {w : Sectors × Inode} (h : Reached f i st w) (size : UInt32) :
    Reached f i st (w.1, { w.2 with size := size }) := by
  obtain ⟨st', ho, hg⟩ := h
  obtain ⟨ho', hg'⟩ := ho.resize size
  exact ⟨st', ho', hg.trans hg'⟩

/-- The block `bmap_or_alloc` returns is mapped. -/
theorem bmapOrAlloc_reached (hdev : i.device = dev) (n : Nat) {w : Sectors × Inode}
    (h : Reached f i st w) :
    Ends (fileView (T := T) dev) (bmapOrAlloc n) w fun o w' => Reached f i st w' ∧
      ∀ b, o = .ok b → b ≠ 0 ∧ w'.2.blocks[n]? = some b := by
  obtain ⟨g, j⟩ := w
  have hdev' : j.device = dev := h.device.trans hdev
  cases hn : j.blocks[n]? with
  | none => exact (bmapOrAlloc_panics hn).ends ⟨h, fun b hb => by cases hb⟩
  | some b =>
    by_cases h0 : b = 0
    · subst h0
      obtain ⟨st', ho, hg⟩ := h
      cases st' with
      | nil =>
        exact (bmapOrAlloc_exhausted hn hdev' ho.freelist).ends
          ⟨⟨[], ho, hg⟩, fun b hb => by cases hb⟩
      | cons b st' =>
        obtain ⟨g', hgives, hst, _, hfr⟩ := bmapOrAlloc_alloc (T := T) hn hdev' ho.freelist
        obtain ⟨ho', hg'⟩ := ho.alloc hn hst hfr
        refine hgives.ends ⟨⟨st', ho', hg.trans hg'⟩, fun c hc => ?_⟩
        cases hc
        exact ⟨ho.freelist.nonzero b List.mem_cons_self, mapBlock_self j (lt_of_blocks hn) b⟩
    · refine (bmapOrAlloc_mapped hn h0).ends ⟨h, fun c hc => ?_⟩
      cases hc
      exact ⟨h0, hn⟩

theorem theInode_keeps (P : Sectors × Inode → Prop) :
    Keeps (fileView (T := T) dev) theInode P :=
  fun _ hw => gives_theInode.ends hw

/-- A write of at most a block to a block the inode maps. -/
theorem diskWrite_reached (buf : List UInt8) (hbuf : buf.length ≤ 512) {w : Sectors × Inode}
    (h : Reached f i st w) {n : Nat} {b : UInt32} (hb : w.2.blocks[n]? = some b) (h0 : b ≠ 0) :
    Ends (fileView (T := T) dev) (onFst (diskWrite buf dev b)) w fun _ w' => Reached f i st w' :=
  ends_onFst ((diskWrite_gives hbuf).ends (h.write hb h0 _))

theorem writeChunks_keeps (hdev : i.device = dev) (src : List UInt8) :
    ∀ (bounds : List (Nat × Nat)) (offset : Nat), (∀ p ∈ bounds, p.2 - p.1 ≤ 512) →
      Keeps (fileView (T := T) dev) (writeChunks src bounds offset) (Reached f i st)
  | [], _, _ => keeps_pure _
  | (lo, hi) :: rest, offset, hb => by
      intro w hw
      unfold writeChunks
      refine ends_bind_of (bmapOrAlloc_reached hdev _ hw) ?_ (fun _ _ h => h.1) (fun _ h => h.1)
      rintro b w' ⟨hw', hmap⟩
      obtain ⟨h0, hbk⟩ := hmap b rfl
      refine gives_theInode.then ?_
      rw [hw'.device, hdev]
      have hlen : (slice src lo (hi - lo)).length ≤ 512 := by
        have h1 : hi - lo ≤ 512 := hb _ List.mem_cons_self
        rw [length_slice]
        omega
      refine ends_bind_of (diskWrite_reached _ hlen hw' hbk h0) ?_ (fun _ _ h => h) (fun _ h => h)
      intro m w'' hw''
      refine keeps_bind (fun w hw => ends_checkedAdd hw hw) (fun o => ?_) w'' hw''
      exact writeChunks_keeps hdev src rest o fun p hp => hb p (List.mem_cons_of_mem _ hp)

theorem writeFirst_reached (hdev : i.device = dev) (src : List UInt8) (offset : Nat)
    {w : Sectors × Inode} (h : Reached f i st w) {n : Nat} {b : UInt32}
    (hb : w.2.blocks[n]? = some b) (h0 : b ≠ 0) :
    Ends (fileView (T := T) dev) (writeFirst src offset b) w fun _ w' => Reached f i st w' := by
  obtain ⟨g, j⟩ := w
  unfold writeFirst
  refine gives_theInode.then ?_
  rw [h.device, hdev]
  split
  · refine diskRead_zero.onFst.then (diskWrite_reached _ ?_ h hb h0)
    rw [length_splice]
    · rw [(g b).property]
    · rw [(g b).property, List.length_take]
      simp only [blockSize]
      omega
  · refine diskWrite_reached _ ?_ h hb h0
    rw [List.length_take]
    simp only [blockSize]
    omega

theorem setSize_keeps (size : UInt32) :
    Keeps (fileView (T := T) dev) (setTheInode fun j => { j with size := size })
      (Reached f i st) := by
  rintro ⟨g, j⟩ hw
  exact (gives_setTheInode _).ends (hw.resize size)

theorem writeBytes_keeps (hdev : i.device = dev) (src : List UInt8) (offset : Nat) :
    Keeps (fileView (T := T) dev) (writeBytes src offset) (Reached f i st) := by
  intro w hw
  unfold writeBytes
  refine ends_bind_of (bmapOrAlloc_reached hdev _ hw) ?_ (fun _ _ h => h.1) (fun _ h => h.1)
  rintro b w' ⟨hw', hmap⟩
  obtain ⟨h0, hbk⟩ := hmap b rfl
  refine ends_bind_of (writeFirst_reached hdev src offset hw' hbk h0) ?_ (fun _ _ h => h)
    (fun _ h => h)
  intro m w'' hw''
  refine keeps_bind (fun w hw => ends_checkedAdd hw hw) (fun o => ?_) w'' hw''
  refine keeps_bind (theInode_keeps _) fun j => ?_
  refine keeps_ite (keeps_ite ?_ (keeps_pure _)) ?_
  · refine keeps_bind (fun w hw => ends_checkedAdd hw hw) fun size => ?_
    exact keeps_bind (setSize_keeps _) fun _ => keeps_pure _
  · refine keeps_bind (keeps_require _) fun _ => ?_
    refine keeps_bind (writeChunks_keeps hdev src _ _ chunkBounds_width) fun o' => ?_
    refine keeps_bind (theInode_keeps _) fun j' => ?_
    exact keeps_ite (keeps_bind (setSize_keeps _) fun _ => keeps_pure _) (keeps_pure _)

/-- **Every `write` grows its inode and nothing else**, whatever the arguments and the outcome. -/
theorem write_keeps (hdev : i.device = dev) (src : List UInt8) (offset : UInt32) :
    Keeps (fileView (T := T) dev) (write src offset) (Reached f i st) := by
  unfold write
  refine keeps_bind (theInode_keeps _) fun j => ?_
  have hbody : Keeps (fileView (T := T) dev) (
      let len := src.length % 2 ^ 32
      let offset := offset.toNat
      if (offset + len) % 2 ^ 32 < offset ∨ j.size.toNat < offset then fail .writeTooLarge
      else do
        let stop ← checkedAdd len offset
        if maxFile * blockSize < stop then fail .writeTooLarge
        else writeBytes src offset) (Reached f i st) := by
    refine keeps_ite (keeps_fail _) ?_
    refine keeps_bind (fun w hw => ends_checkedAdd hw hw) fun stop => ?_
    exact keeps_ite (keeps_fail _) (writeBytes_keeps hdev src _)
  cases j.type_ with
  | unused => exact keeps_fail _
  | file => exact hbody
  | directory => exact hbody

theorem dirPlace_keeps (hdev : i.device = dev) (newDirent : List UInt8) :
    ∀ offsets : List Nat,
      Keeps (fileView (T := T) dev) (dirPlace newDirent offsets) (Reached f i st)
  | [] => by
      unfold dirPlace
      refine keeps_bind (theInode_keeps _) fun dir => ?_
      exact keeps_bind (write_keeps hdev _ _) fun _ => keeps_pure ()
  | offset :: rest => by
      intro w hw
      unfold dirPlace
      obtain ⟨g, j⟩ := w
      refine gives_theInode.then ?_
      have hj : j.device = dev := hw.device.trans hdev
      refine ends_bind_of (readInto_keeps j hj _ _).onFst_same ?_ ?_ ?_
      · rintro r w rfl
        refine keeps_bind (keeps_require _) (fun _ => ?_) (g, j) hw
        refine keeps_ite ?_ (dirPlace_keeps hdev newDirent rest)
        exact keeps_bind (write_keeps hdev _ _) fun _ => keeps_pure ()
      · rintro e w rfl
        exact hw
      · rintro w rfl
        exact hw

/-- **Every `dir_add` grows its inode and nothing else.** -/
theorem dirAdd_keeps (hdev : i.device = dev) (name : List UInt8) (target : UInt32) :
    Keeps (fileView (T := T) dev) (dirAdd name target) (Reached f i st) := by
  rintro ⟨g, j⟩ hw
  unfold dirAdd
  refine gives_theInode.then ?_
  have hj : j.device = dev := hw.device.trans hdev
  refine ends_bind_of (keeps_attempt (dirLookup_keeps j hj name)).onFst_same ?_ ?_ ?_
  · rintro found w rfl
    cases found with
    | ok r => exact ends_fail hw
    | error e =>
      refine keeps_bind (keeps_require _) (fun _ => ?_) (g, j) hw
      exact dirPlace_keeps hdev _ _
  · rintro e w rfl
    exact hw
  · rintro w rfl
    exact hw

end Writing

/-! ## 3. A family of inodes -/

/-- **The inodes of a family are apart**: on one well-formed device, every block any of them
    maps is a data block, not free, and mapped by that inode alone and once. -/
structure Apart {ι : Type} (dev : UInt32) (f : Sectors) (inodes : ι → Inode) (st : List UInt32) :
    Prop where
  wf : WellFormed f st
  device : ∀ k, (inodes k).device = dev
  data : ∀ k (n : Nat) b, (inodes k).blocks[n]? = some b → b ≠ 0 → IsData b
  used : ∀ k (n : Nat) b, (inodes k).blocks[n]? = some b → b ≠ 0 → b ∉ st
  once : ∀ k k' (n m : Nat) b, (inodes k).blocks[n]? = some b → (inodes k').blocks[m]? = some b →
    b ≠ 0 → k = k' ∧ n = m

theorem Apart.own {ι : Type} {dev : UInt32} {f : Sectors} {inodes : ι → Inode} {st : List UInt32}
    (h : Apart dev f inodes st) (k : ι) : Own f (inodes k) st where
  freelist := h.wf.freelist
  free_data := h.wf.free_data
  data := h.data k
  used := h.used k
  once n m b hn hm h0 := (h.once k k n m b hn hm h0).2

/-- A call that writes through an inode. -/
inductive FileCall where
  | write (src : List UInt8) (offset : UInt32)
  | dirAdd (name : List UInt8) (target : UInt32)

section Family

variable {T ι : Type} [Disk T] [FaultFree T] [DecidableEq ι] {dev : UInt32}

/-- The code of a call. -/
def FileCall.code : FileCall → Prog (T × Inode) FsError Unit
  | .write src offset => do
    let _ ← SimpleFs.write src offset
    pure ()
  | .dirAdd name target => SimpleFs.dirAdd name target

/-- The disk and the family after a call through inode `k`. -/
def callOn (s : T × (ι → Inode)) (k : ι) (c : FileCall) : T × (ι → Inode) :=
  ((c.code (s.1, s.2 k)).2.1, Function.update s.2 k (c.code (s.1, s.2 k)).2.2)

/-- One call of a run: it returns or fails, but does not panic. -/
inductive FamilyStep : T × (ι → Inode) → ι × FileCall → T × (ι → Inode) → Prop where
  | call (s : T × (ι → Inode)) (k : ι) (c : FileCall)
      (hends : (c.code (s.1, s.2 k)).1 ≠ .panic) : FamilyStep s (k, c) (callOn s k c)

theorem code_keeps {f : Sectors} {i : Inode} {st : List UInt32} (hdev : i.device = dev)
    (c : FileCall) : Keeps (fileView (T := T) dev) c.code (Reached f i st) := by
  cases c with
  | write src offset => exact keeps_bind (write_keeps hdev src offset) fun _ => keeps_pure ()
  | dirAdd name target => exact dirAdd_keeps hdev name target

/-- What a call through inode `k` does to the disk and to that inode. -/
theorem callOn_grew {s : T × (ι → Inode)} {st : List UInt32}
    (h : Apart dev (sectors dev s.1) s.2 st) (k : ι) (c : FileCall) :
    ∃ st', Own (sectors dev (callOn s k c).1) ((callOn s k c).2 k) st' ∧
      Grew (sectors dev s.1) (s.2 k) st (sectors dev (callOn s k c).1)
        ((callOn s k c).2 k) st' := by
  obtain ⟨st', ho, hg⟩ := code_keeps (T := T) (h.device k) c (sectors dev s.1, s.2 k)
    ⟨st, h.own k, Grew.refl _ _ _⟩ (s.1, s.2 k) rfl
  have e : (callOn s k c).2 k = (c.code (s.1, s.2 k)).2.2 := Function.update_self k _ _
  rw [e]
  exact ⟨st', ho, hg⟩

/-- **A call leaves the other inodes' blocks and the inode table alone.** -/
theorem callOn_isolated {s : T × (ι → Inode)} {st : List UInt32}
    (h : Apart dev (sectors dev s.1) s.2 st) (k : ι) (c : FileCall) :
    (∀ k', k' ≠ k → ∀ (n : Nat) b, (s.2 k').blocks[n]? = some b → b ≠ 0 →
      sectors dev (callOn s k c).1 b = sectors dev s.1 b) ∧
    ∀ b, IsTable b → sectors dev (callOn s k c).1 b = sectors dev s.1 b := by
  obtain ⟨st', _, hg⟩ := callOn_grew h k c
  refine ⟨?_, fun b hb => hg.table (h.own k) hb⟩
  intro k' hk n b hb h0
  refine hg.untouched b h0 (h.used k' n b hb h0) fun m hm => hk ?_
  exact (h.once k' k n m b hb hm h0).1

/-- A call keeps the family apart. -/
theorem callOn_apart {s : T × (ι → Inode)} {st : List UInt32}
    (h : Apart dev (sectors dev s.1) s.2 st) (k : ι) (c : FileCall) :
    ∃ st', Apart dev (sectors dev (callOn s k c).1) (callOn s k c).2 st' := by
  obtain ⟨st', ho, hg⟩ := callOn_grew h k c
  have hother : ∀ k', k' ≠ k → (callOn s k c).2 k' = s.2 k' := fun k' hk =>
    Function.update_of_ne hk _ _
  -- a block of inode `k` is one it had, or came off the freelist; the others had neither
  have hfresh : ∀ k', k' ≠ k → ∀ (n m : Nat) b, (s.2 k').blocks[n]? = some b →
      ((callOn s k c).2 k).blocks[m]? = some b → b ≠ 0 → False := by
    intro k' hk n m b hb hm h0
    rcases hg.gained m b hm h0 with hold | ⟨hst, _⟩
    · exact hk (h.once k' k n m b hb hold h0).1
    · exact h.used k' n b hb h0 hst
  refine ⟨st', h.wf.grew (h.own k) ho hg, ?_, ?_, ?_, ?_⟩
  · intro k'
    by_cases hk : k' = k
    · subst hk
      rw [hg.device, h.device]
    · rw [hother k' hk, h.device]
  · intro k' n b hb h0
    by_cases hk : k' = k
    · subst hk
      exact ho.data n b hb h0
    · rw [hother k' hk] at hb
      exact h.data k' n b hb h0
  · intro k' n b hb h0
    by_cases hk : k' = k
    · subst hk
      exact ho.used n b hb h0
    · rw [hother k' hk] at hb
      exact fun hm => h.used k' n b hb h0 (hg.suffix.subset hm)
  · intro k' k'' n m b hb hb' h0
    by_cases hk : k' = k
    · subst hk
      by_cases hk' : k'' = k'
      · subst hk'
        exact ⟨rfl, ho.once n m b hb hb' h0⟩
      · rw [hother k'' hk'] at hb'
        exact (hfresh k'' hk' m n b hb' hb h0).elim
    · rw [hother k' hk] at hb
      by_cases hk' : k'' = k
      · subst hk'
        exact (hfresh k' hk n m b hb hb' h0).elim
      · rw [hother k'' hk'] at hb'
        exact h.once k' k'' n m b hb hb' h0

/-- **Block ownership over whole runs.** Over every run of `write` and `dir_add` calls through a
    family of inodes that are apart, they stay apart, and no call -- however it ends -- changes a
    block another inode maps or a block of the inode table. -/
theorem family_stays_apart {s₀ s : T × (ι → Inode)} {st₀ : List UInt32}
    {calls : List (ι × FileCall)}
    (h0 : Apart dev (sectors dev s₀.1) s₀.2 st₀) (hrun : Trace FamilyStep s₀ calls s) :
    (∃ st, Apart dev (sectors dev s.1) s.2 st) ∧
    ∀ k c, (∀ k', k' ≠ k → ∀ (n : Nat) b, (s.2 k').blocks[n]? = some b → b ≠ 0 →
        sectors dev (callOn s k c).1 b = sectors dev s.1 b) ∧
      ∀ b, IsTable b → sectors dev (callOn s k c).1 b = sectors dev s.1 b := by
  have hinv : ∃ st, Apart dev (sectors dev s.1) s.2 st := by
    refine Trace.invariant (I := fun s : T × (ι → Inode) =>
      ∃ st, Apart dev (sectors dev s.1) s.2 st)
      ?_ ⟨st₀, h0⟩ hrun
    rintro s l t ⟨st, hst⟩ ⟨k, c, _⟩
    exact callOn_apart hst k c
  obtain ⟨st, hst⟩ := hinv
  exact ⟨⟨st, hst⟩, fun k c => callOn_isolated hst k c⟩

end Family

/-- Two fresh files on the one-block disk, and a byte written to one of them. -/
theorem family_stays_apart_oneBlock :
    ∃ st, Apart 1
      (sectors 1 (callOn (oneBlockDisk, fun _ : Bool => freshInode .file 1) true (.write [7] 0)).1)
      (callOn (oneBlockDisk, fun _ : Bool => freshInode .file 1) true (.write [7] 0)).2 st := by
  have h0 : Apart 1 (sectors 1 oneBlockDisk) (fun _ : Bool => freshInode .file 1) [257] :=
    ⟨oneBlockDisk_wellFormed 1, fun _ => rfl, fun _ _ _ hb hne => absurd (freshInode_blocks hb) hne,
      fun _ _ _ hb hne => absurd (freshInode_blocks hb) hne,
      fun _ _ _ _ _ hb _ hne => absurd (freshInode_blocks hb) hne⟩
  have hstep := FamilyStep.call (oneBlockDisk, fun _ : Bool => freshInode .file 1) true
    (.write [7] 0) (by decide +kernel)
  exact (family_stays_apart h0 (Trace.single hstep)).1

end Sprocket.SimpleFs
