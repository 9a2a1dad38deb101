/-
  File:      Sprocket/SimpleFs/ReadErrors.lean
  Subject:   `dir_add` WHEN READS FAIL: the name check and the slot search are two passes.

  `dir_add` looks its name up first and takes every error of the lookup for an absent name. Then it
  reads the directory a second time, in search of an empty slot. `Flaky T` is a fault-free disk any
  of whose reads may fail; a pattern says which. On it the two passes are followed read by read:

  * `OneBlockDir.lookup_found`, `OneBlockDir.lookup_fails` -- the lookup reads the slots up to the
    one with the name, or up to the first read that fails;
  * `OneBlockDir.place_ok`, `OneBlockDir.place_refused` -- the search reads the slots up to the
    first empty one, the write then at most one block: nothing is written if one of these reads
    fails;
  * `dirAdd_present_refused_iff` -- so a name that is present is added again exactly when a read of
    the lookup fails and all reads of the search succeed.
-/
import Sprocket.SimpleFs.Directory
import Sprocket.SimpleFs.Offsets

namespace Sprocket.SimpleFs

open Bytes Prog

/-! ## 1. A disk whose reads may fail -/

/-- A disk whose reads may fail: `pattern n` says whether the `n`-th read from now on does. -/
structure Flaky (T : Type) where
  disk : T
  pattern : Nat → Bool

namespace Flaky

variable {T : Type} [Disk T]

/-- The pattern after `n` more reads. -/
def after (p : Nat → Bool) (n : Nat) : Nat → Bool := fun k => p (n + k)

theorem after_after (p : Nat → Bool) (n m : Nat) : after (after p n) m = after p (n + m) := by
  funext k
  show p (n + (m + k)) = p (n + m + k)
  rw [Nat.add_assoc]

theorem after_zero (p : Nat → Bool) : after p 0 = p := by
  funext k
  exact congrArg p (Nat.zero_add k)

instance : Disk (Flaky T) where
  read dev s := fun x =>
    if x.1.pattern 0 then (.err .ioError, (⟨x.1.disk, after x.1.pattern 1⟩, x.2))
    else
      ((Disk.read dev s (x.1.disk, x.2)).1,
        (⟨(Disk.read dev s (x.1.disk, x.2)).2.1, after x.1.pattern 1⟩,
          (Disk.read dev s (x.1.disk, x.2)).2.2))
  write buf dev s := fun x =>
    ((Disk.write buf dev s x.disk).1, ⟨(Disk.write buf dev s x.disk).2, x.pattern⟩)
  length_read dev s x := by
    split
    · rfl
    · exact Disk.length_read dev s (x.1.disk, x.2)

variable [FaultFree T] {dev s : UInt32} {f : Sectors} {buf : List UInt8} {p : Nat → Bool}

/-- The sectors of one device, beside the reads that will fail. -/
def view (dev : UInt32) (x : Flaky T) : Sectors × (Nat → Bool) := (sectors dev x.disk, x.pattern)

theorem diskRead_ok (hp : p 0 = false) (h : buf.length = 512) :
    Gives (view (T := T) dev) (diskRead buf dev s) (f, p) (.ok (f s).val) (f, after p 1) := by
  refine gives_diskRead ?_
  rintro ⟨d, q⟩ hd
  obtain ⟨rfl, rfl⟩ := Prod.mk.inj hd
  obtain ⟨h1, h2, h3⟩ := FaultFree.read_spec d buf dev s (le_of_eq h)
  rw [h, List.take_of_length_le (le_of_eq (FaultFree.contents d dev s).property)] at h2
  have hq : ¬ q 0 = true := ne_true_of_eq_false hp
  dsimp only [Disk.read]
  rw [if_neg hq]
  exact ⟨h1, Prod.ext (congrFun h3 dev) rfl, h2⟩

/-- A read that fails changes no sector. -/
theorem diskRead_fails (hp : p 0 = true) :
    Gives (view (T := T) dev) (diskRead buf dev s) (f, p) (.err (.diskFault .ioError))
      (f, after p 1) := by
  refine gives_diskRead_err ?_
  rintro ⟨d, q⟩ hd
  obtain ⟨rfl, rfl⟩ := Prod.mk.inj hd
  have hq : q 0 = true := hp
  dsimp only [Disk.read]
  rw [if_pos hq]
  exact ⟨rfl, rfl⟩

/-- Writes do not fail. -/
theorem diskWrite_ok {n : Nat} (hlen : buf.length = n) (hn : n ≤ 512) :
    Gives (view (T := T) dev) (diskWrite buf dev s) (f, p) (.ok n)
      (Function.update f s ((f s).overwrite buf), p) := by
  subst hlen
  refine gives_diskWrite ?_
  rintro ⟨d, q⟩ hd
  obtain ⟨rfl, rfl⟩ := Prod.mk.inj hd
  obtain ⟨h1, h2⟩ := FaultFree.write_spec d buf dev s hn
  exact ⟨h1, Prod.ext h2 rfl⟩

omit [Disk T] [FaultFree T] in
/-- A scan whose step is one read: `t` steps from `k` on. -/
theorem scan {σ υ ε α : Type} {look : σ → υ} {m : Nat → Prog σ ε α} {v : (Nat → Bool) → υ}
    {C : Nat → Prop} {Q : Outcome ε α → υ → Prop}
    (hnext : ∀ k p, C k → p 0 = false → Ends look (m (k + 1)) (v (after p 1)) Q →
      Ends look (m k) (v p) Q)
    {k : Nat} (t : Nat) (hC : ∀ q, q < k + t → C q) (hp : ∀ q, q < t → p q = false)
    (hrest : Ends look (m (k + t)) (v (after p t)) Q) : Ends look (m k) (v p) Q := by
  induction t generalizing k p with
  | zero =>
    rw [after_zero] at hrest
    exact hrest
  | succ t ih =>
    refine hnext k p (hC k (by omega)) (hp 0 (Nat.zero_lt_succ t)) ?_
    refine ih (fun q hq => hC q (by omega)) (fun q hq => hp (1 + q) (by omega)) ?_
    rw [after_after, Nat.add_comm 1 t, Nat.add_assoc, Nat.add_comm 1 t]
    exact hrest

end Flaky

/-! ## 2. The slots of a directory -/

/-- What a read of slot `k` delivers: the part of it that lies in its first block. -/
def slotBytes (f : Sectors) (i : Inode) (k : Nat) : List UInt8 :=
  splice (List.replicate direntSize 0) 0
    (((blockOf f i (260 * k / 512)).val.drop (260 * k % 512)).take direntSize)

/-- Slot `k` is in use. -/
def SlotLive (f : Sectors) (i : Inode) (k : Nat) : Prop :=
  entryInumber (slotBytes f i k) ≠ unusedInum

instance (f : Sectors) (i : Inode) (k : Nat) : Decidable (SlotLive f i k) := instDecidableNot

/-- Slot `k` is in use, under the name `name`: the bytes before the first NUL. -/
def SlotNamed (f : Sectors) (i : Inode) (name : List UInt8) (k : Nat) : Prop :=
  SlotLive f i k ∧ (entryName (slotBytes f i k)).takeWhile (· != 0) = name

instance (f : Sectors) (i : Inode) (name : List UInt8) (k : Nat) :
    Decidable (SlotNamed f i name k) := instDecidableAnd

/-- The comparison of `dir_lookup` is equality with the name of the entry. -/
theorem nameMatches_iff (entry name : List UInt8) :
    nameMatches entry name = true ↔ (entryName entry).takeWhile (· != 0) = name := by
  have htake : (entryName entry).take ((entryName entry).findIdx (· == 0)) =
      (entryName entry).takeWhile (· != 0) := by
    rw [List.takeWhile_eq_take_findIdx_not]
    simp only [bne, Bool.not_not]
  have hlen : ((entryName entry).takeWhile (· != 0)).length =
      (entryName entry).findIdx (· == 0) := by
    rw [← htake, List.length_take, Nat.min_eq_left List.findIdx_le_length]
  unfold nameMatches
  dsimp only
  rw [htake, ← hlen, Bool.and_eq_true, beq_iff_eq]
  constructor
  · rintro ⟨hl, hz⟩
    rw [zip_all_eq _ _ hl] at hz
    exact of_decide_eq_true hz
  · intro h
    have hl : ((entryName entry).takeWhile (· != 0)).length = name.length := by rw [h]
    rw [zip_all_eq _ _ hl]
    exact ⟨hl, decide_eq_true h⟩

/-- **A directory of `n` slots whose entries lie within single blocks.** The slots of a block
    boundary may be there; they are empty. -/
structure OneBlockDir (f : Sectors) (i : Inode) (n : Nat) : Prop where
  type_ : i.type_ = .directory
  whole : i.Whole
  size : i.size.toNat = 260 * n
  within : ∀ k, k < n → SlotLive f i k → 260 * k % 512 + 260 ≤ 512

section Calls

variable {T : Type} [Disk T] [FaultFree T] {f : Sectors} {i : Inode} {n k : Nat}
  {p : Nat → Bool} {name : List UInt8}

theorem OneBlockDir.slot_mapped (h : OneBlockDir f i n) (hk : k < n) :
    i.Maps (260 * k / 512) := by
  have hsize := h.size
  exact h.whole.maps (by omega)

theorem blockOf_mapped {b : UInt32} {m : Nat} (hb : i.blocks[m]? = some b) (h0 : b ≠ 0) :
    blockOf f i m = f b := by
  unfold blockOf
  rw [hb]
  exact if_neg h0

/-- Reading a slot passes the checks of `read`. -/
theorem OneBlockDir.readInto_checked (h : OneBlockDir f i n) (hk : k < n)
    {Q : Outcome FsError (Nat × List UInt8) → Sectors × (Nat → Bool) → Prop}
    (hread : Ends (onView (Flaky.view (T := T) i.device)) (readBytes i (260 * k) direntSize)
      ((f, p), List.replicate direntSize 0) (LocalPost Q)) :
    Ends (Flaky.view (T := T) i.device)
      (readInto i (List.replicate direntSize 0) (UInt32.ofNat (260 * k))) (f, p) Q := by
  have hsize := h.size
  have hmax := h.whole.size_le
  have hoff := toNat_slot (show 260 * k ≤ 32768 by omega)
  have hlen : min (direntSize % 2 ^ 32) (i.size.toNat - 260 * k) = direntSize := by
    simp only [direntSize]
    omega
  refine ends_withLocal (read_checked (by rw [h.type_]; decide) ?_)
  rw [hoff, List.length_replicate, hlen, if_neg (by simp only [direntSize]; omega)]
  exact hread

/-- Reading a slot is one read of its block. -/
theorem OneBlockDir.readSlot (h : OneBlockDir f i n) (hk : k < n) (hp : p 0 = false) :
    Gives (Flaky.view (T := T) i.device)
      (readInto i (List.replicate direntSize 0) (UInt32.ofNat (260 * k))) (f, p)
      (.ok (direntSize, slotBytes f i k)) (f, Flaky.after p 1) := by
  have hsize := h.size
  have hmax := h.whole.size_le
  obtain ⟨b, hb, h0⟩ := h.slot_mapped hk
  refine h.readInto_checked hk (readBytes_from hb h0 (by omega)
    (Flaky.diskRead_ok hp length_zeroBlock) (f b).property ?_)
  have hbytes : splice (List.replicate direntSize 0) 0
      (((f b).val.drop (260 * k % 512)).take direntSize) = slotBytes f i k := by
    rw [slotBytes, blockOf_mapped hb h0]
  rw [if_pos (by simp only [direntSize]; omega), hbytes]
  exact ends_pure ⟨rfl, rfl⟩

theorem OneBlockDir.readSlot_fails (h : OneBlockDir f i n) (hk : k < n) (hp : p 0 = true) :
    Gives (Flaky.view (T := T) i.device)
      (readInto i (List.replicate direntSize 0) (UInt32.ofNat (260 * k))) (f, p)
      (.err (.diskFault .ioError)) (f, Flaky.after p 1) := by
  obtain ⟨b, hb, h0⟩ := h.slot_mapped hk
  refine h.readInto_checked hk ?_
  unfold readBytes
  have hread : Gives (onView (Flaky.view (T := T) i.device))
      (onFst (diskRead zeroBlock i.device b)) ((f, p), List.replicate direntSize (0 : UInt8))
      (.err (.diskFault .ioError)) ((f, Flaky.after p 1), List.replicate direntSize 0) :=
    (Flaky.diskRead_fails hp).onFst
  exact (gives_bmap hb h0).then (Gives.ends hread.then_err ⟨rfl, rfl⟩)

/-! ## 3. The two passes -/

/-- The slots from `k` on. -/
def slotsFrom (n k : Nat) : List Nat := (List.range' k (n - k)).map (260 * ·)

theorem slotsFrom_cons (hk : k < n) : slotsFrom n k = 260 * k :: slotsFrom n (k + 1) := by
  unfold slotsFrom
  rw [show n - k = n - (k + 1) + 1 by omega, List.range'_succ, List.map_cons]

theorem slotsFrom_end : slotsFrom n n = [] := by
  rw [slotsFrom, Nat.sub_self]
  rfl

theorem OneBlockDir.slotOffsets (h : OneBlockDir f i n) :
    SimpleFs.slotOffsets i.size.toNat = slotsFrom n 0 := by
  rw [h.size, slotOffsets_eq, List.range_eq_range']
  rfl

/-- The lookup goes on behind a slot without the name. -/
theorem OneBlockDir.lookup_next (h : OneBlockDir f i n) (hk : k < n) (hp : p 0 = false)
    (hother : ¬ SlotNamed f i name k)
    {Q : Outcome FsError (UInt32 × Nat) → Sectors × (Nat → Bool) → Prop}
    (hrest : Ends (Flaky.view (T := T) i.device) (dirLookupIn i name (slotsFrom n (k + 1)))
      (f, Flaky.after p 1) Q) :
    Ends (Flaky.view (T := T) i.device) (dirLookupIn i name (slotsFrom n k)) (f, p) Q := by
  rw [slotsFrom_cons hk, dirLookupIn]
  refine (h.readSlot hk hp).then ?_
  split
  · exact hrest
  · next hlive =>
    rw [if_neg fun hmatch => hother ⟨hlive, (nameMatches_iff _ _).mp hmatch⟩]
    exact hrest

/-- The lookup reads `t` slots without the name. -/
theorem OneBlockDir.lookup_scan (h : OneBlockDir f i n) {t : Nat} (ht : t ≤ n)
    (hother : ∀ q, q < t → ¬ SlotNamed f i name q) (hp : ∀ q, q < t → p q = false)
    {Q : Outcome FsError (UInt32 × Nat) → Sectors × (Nat → Bool) → Prop}
    (hrest : Ends (Flaky.view (T := T) i.device) (dirLookupIn i name (slotsFrom n t))
      (f, Flaky.after p t) Q) :
    Ends (Flaky.view (T := T) i.device) (dirLookupIn i name (slotsFrom n 0)) (f, p) Q := by
  refine Flaky.scan (m := fun k => dirLookupIn i name (slotsFrom n k)) (v := fun p => (f, p))
    (C := fun k => k < n ∧ ¬ SlotNamed f i name k)
    (fun k p hC hp hrest => h.lookup_next hC.1 hp hC.2 hrest) t ?_ hp ?_
  · intro q hq
    exact ⟨by omega, hother q (by omega)⟩
  · rw [Nat.zero_add]
    exact hrest

/-- **The lookup finds the first slot with the name**, if all of its reads succeed. -/
theorem OneBlockDir.lookup_found (h : OneBlockDir f i n) {m : Nat} (hm : m < n)
    (hnamed : SlotNamed f i name m) (hfirst : ∀ q, q < m → ¬ SlotNamed f i name q)
    (hp : ∀ q, q ≤ m → p q = false) :
    Gives (Flaky.view (T := T) i.device) (dirLookup i name) (f, p)
      (.ok (entryInumber (slotBytes f i m), 260 * m)) (f, Flaky.after p (m + 1)) := by
  unfold dirLookup
  refine (gives_require h.type_).then ?_
  rw [h.slotOffsets]
  refine h.lookup_scan (Nat.le_of_lt hm) hfirst (fun q hq => hp q (Nat.le_of_lt hq)) ?_
  rw [slotsFrom_cons hm, dirLookupIn]
  refine (h.readSlot hm (hp m (Nat.le_refl m))).then ?_
  rw [if_neg hnamed.1, if_pos ((nameMatches_iff _ _).mpr hnamed.2), Flaky.after_after]
  exact gives_pure _

/-- **The lookup ends with the first read that fails**, if it has not found the name before. -/
theorem OneBlockDir.lookup_fails (h : OneBlockDir f i n) {r : Nat} (hr : r < n)
    (hfirst : ∀ q, q < r → ¬ SlotNamed f i name q) (hp : ∀ q, q < r → p q = false)
    (hfail : p r = true) :
    Gives (Flaky.view (T := T) i.device) (dirLookup i name) (f, p)
      (.err (.diskFault .ioError)) (f, Flaky.after p (r + 1)) := by
  unfold dirLookup
  refine (gives_require h.type_).then ?_
  rw [h.slotOffsets]
  refine h.lookup_scan (Nat.le_of_lt hr) hfirst hp ?_
  rw [slotsFrom_cons hr, dirLookupIn, ← Flaky.after_after]
  exact (h.readSlot_fails hr hfail).then_err

variable {bytes : List UInt8}

/-- The search goes on behind a slot in use. -/
theorem OneBlockDir.place_next (h : OneBlockDir f i n) (hk : k < n) (hp : p 0 = false)
    (hlive : SlotLive f i k) {Q : Outcome FsError Unit → (Sectors × (Nat → Bool)) × Inode → Prop}
    (hrest : Ends (onView (Flaky.view (T := T) i.device)) (dirPlace bytes (slotsFrom n (k + 1)))
      ((f, Flaky.after p 1), i) Q) :
    Ends (onView (Flaky.view (T := T) i.device)) (dirPlace bytes (slotsFrom n k))
      ((f, p), i) Q := by
  rw [slotsFrom_cons hk, dirPlace]
  refine gives_theInode.then ((h.readSlot hk hp).onFst.then ((gives_require rfl).then ?_))
  rw [if_neg hlive]
  exact hrest

/-- The search reads `t` slots in use. -/
theorem OneBlockDir.place_scan (h : OneBlockDir f i n) {t : Nat} (ht : t ≤ n)
    (hlive : ∀ q, q < t → SlotLive f i q) (hp : ∀ q, q < t → p q = false)
    {Q : Outcome FsError Unit → (Sectors × (Nat → Bool)) × Inode → Prop}
    (hrest : Ends (onView (Flaky.view (T := T) i.device)) (dirPlace bytes (slotsFrom n t))
      ((f, Flaky.after p t), i) Q) :
    Ends (onView (Flaky.view (T := T) i.device)) (dirPlace bytes (slotsFrom n 0))
      ((f, p), i) Q := by
  refine Flaky.scan (m := fun k => dirPlace bytes (slotsFrom n k)) (v := fun p => ((f, p), i))
    (C := fun k => k < n ∧ SlotLive f i k)
    (fun k p hC hp hrest => h.place_next hC.1 hp hC.2 hrest) t ?_ hp ?_
  · intro q hq
    exact ⟨by omega, hlive q (by omega)⟩
  · rw [Nat.zero_add]
    exact hrest

/-- A read of the search fails: nothing is written. -/
theorem OneBlockDir.place_fails (h : OneBlockDir f i n) {r : Nat} (hr : r < n)
    (hlive : ∀ q, q < r → SlotLive f i q) (hp : ∀ q, q < r → p q = false) (hfail : p r = true) :
    Gives (onView (Flaky.view (T := T) i.device)) (dirPlace bytes (slotsFrom n 0)) ((f, p), i)
      (.err (.diskFault .ioError)) ((f, Flaky.after p (r + 1)), i) := by
  refine h.place_scan (Nat.le_of_lt hr) hlive hp ?_
  rw [slotsFrom_cons hr, dirPlace, ← Flaky.after_after]
  exact gives_theInode.then (h.readSlot_fails hr hfail).onFst.then_err

/-- **The search writes the entry at the first empty slot `j`**, or behind the last one. -/
theorem OneBlockDir.place_at (h : OneBlockDir f i n) {j : Nat} (hj : j ≤ n)
    (hlive : ∀ q, q < j → SlotLive f i q) (hempty : j < n → ¬ SlotLive f i j)
    (hp : ∀ q, q < min (j + 1) n → p q = false)
    {Q : Outcome FsError Unit → (Sectors × (Nat → Bool)) × Inode → Prop}
    (hwrite : Ends (onView (Flaky.view (T := T) i.device))
      (do let _ ← write bytes (UInt32.ofNat (260 * j)); pure ())
      ((f, Flaky.after p (min (j + 1) n)), i) Q) :
    Ends (onView (Flaky.view (T := T) i.device)) (dirPlace bytes (slotsFrom n 0))
      ((f, p), i) Q := by
  refine h.place_scan hj hlive (fun q hq => hp q (by omega)) ?_
  by_cases hend : j = n
  · subst hend
    rw [Nat.min_eq_right (Nat.le_succ j), ← h.size, UInt32.ofNat_toNat] at hwrite
    rw [slotsFrom_end, dirPlace]
    exact gives_theInode.then hwrite
  · have hjn : j < n := by omega
    rw [Nat.min_eq_left (by omega), ← Flaky.after_after] at hwrite
    rw [slotsFrom_cons hjn, dirPlace]
    refine gives_theInode.then ?_
    refine (h.readSlot hjn (hp j (by omega))).onFst.then ((gives_require rfl).then ?_)
    rw [if_pos (not_not.mp (hempty hjn))]
    exact hwrite

/-! ## 4. The write of an entry -/

/-- The first block is written, after a read if the entry does not start it. -/
theorem Flaky.writeFirst_ok (src : List UInt8) (offset : Nat) (b : UInt32)
    (hp : offset % 512 ≠ 0 → p 0 = false) :
    ∃ w, Gives (onView (Flaky.view (T := T) i.device)) (writeFirst src offset b) ((f, p), i)
      (.ok (firstWritten src offset)) (w, i) := by
  unfold writeFirst firstWritten
  by_cases h : offset % 512 ≠ 0
  · refine ⟨(Function.update f b ((f b).overwrite ((f b).patch offset src).val), after p 1),
      gives_theInode.then ?_⟩
    rw [if_pos h, if_pos h]
    refine (Flaky.diskRead_ok (hp h) length_zeroBlock).onFst.then ?_
    exact (Flaky.diskWrite_ok ((f b).patch offset src).property (Nat.le_refl 512)).onFst
  · have hlen : (src.take (min blockSize src.length)).length = min 512 src.length := by
      rw [List.length_take]
      simp only [blockSize]
      omega
    refine ⟨(Function.update f b ((f b).overwrite (src.take (min blockSize src.length))), p),
      gives_theInode.then ?_⟩
    rw [if_neg h, if_neg h]
    exact (Flaky.diskWrite_ok hlen (Nat.min_le_left _ _)).onFst

/-- Writing a slot passes the checks of `write`. -/
theorem OneBlockDir.write_checked (h : OneBlockDir f i n) {j : Nat} (hj : j ≤ n)
    (hroom : 260 * j + 260 ≤ 32768) (hlen : bytes.length = 260)
    {Q : Outcome FsError Nat → (Sectors × (Nat → Bool)) × Inode → Prop}
    (hwrite : Ends (onView (Flaky.view (T := T) i.device)) (writeBytes bytes (260 * j))
      ((f, p), i) Q) :
    Ends (onView (Flaky.view (T := T) i.device)) (write bytes (UInt32.ofNat (260 * j)))
      ((f, p), i) Q := by
  have hsize := h.size
  refine SimpleFs.write_checked (by rw [h.type_]; decide) ?_
  rw [toNat_slot (show 260 * j ≤ 32768 by omega), hlen, if_neg (by omega)]
  exact hwrite

/-- **The entry is written into a mapped block.** -/
theorem OneBlockDir.write_ok (h : OneBlockDir f i n) {j : Nat} (hj : j ≤ n)
    (hm : i.Maps (260 * j / 512)) (hroom : 260 * j + 260 ≤ 32768) (hlen : bytes.length = 260)
    (hp : 260 * j % 512 ≠ 0 → p 0 = false) :
    ∃ w, Gives (onView (Flaky.view (T := T) i.device)) (write bytes (UInt32.ofNat (260 * j)))
      ((f, p), i) (.ok 260) w := by
  have hmax := h.whole.size_le
  have hfw : 260 ≤ firstWritten bytes (260 * j) := by
    unfold firstWritten
    rw [hlen]
    split <;> omega
  obtain ⟨b, hb, h0⟩ := hm
  obtain ⟨v, hfirst⟩ := Flaky.writeFirst_ok (T := T) (f := f) (i := i) bytes (260 * j) b hp
  have hwrite := writeBytes_ends (by omega) (by omega) (by omega) (by omega)
    (bmapOrAlloc_mapped hb h0) hfirst
  rw [hlen] at hwrite
  exact ⟨_, h.write_checked hj hroom hlen hwrite⟩

/-- The read before the write fails: nothing is written. -/
theorem OneBlockDir.write_fails (h : OneBlockDir f i n) {j : Nat} (hj : j ≤ n)
    (hm : i.Maps (260 * j / 512)) (hroom : 260 * j + 260 ≤ 32768) (hlen : bytes.length = 260)
    (hinner : 260 * j % 512 ≠ 0) (hp : p 0 = true) :
    Gives (onView (Flaky.view (T := T) i.device)) (write bytes (UInt32.ofNat (260 * j)))
      ((f, p), i) (.err (.diskFault .ioError)) ((f, Flaky.after p 1), i) := by
  obtain ⟨b, hb, h0⟩ := hm
  refine h.write_checked hj hroom hlen ?_
  unfold writeBytes writeFirst
  refine (bmapOrAlloc_mapped hb h0).then (Gives.then_err (gives_theInode.then ?_))
  rw [if_pos hinner]
  exact (Flaky.diskRead_fails hp).onFst.then_err

/-! ## 5. `dir_add` on a name that is present -/

/-- The first of `n` slots with a property; `n` if there is none. -/
def firstSlot (P : Nat → Prop) [DecidablePred P] (n : Nat) : Nat :=
  (List.range n).findIdx fun k => decide (P k)

section FirstSlot

variable {P : Nat → Prop} [DecidablePred P]

theorem firstSlot_le : firstSlot P n ≤ n := by
  have h : (List.range n).findIdx (fun k => decide (P k)) ≤ (List.range n).length :=
    List.findIdx_le_length
  rwa [List.length_range] at h

theorem firstSlot_holds (h : firstSlot P n < n) : P (firstSlot P n) := by
  have hlt : (List.range n).findIdx (fun k => decide (P k)) < (List.range n).length := by
    rw [List.length_range]
    exact h
  have hfound := List.findIdx_getElem (w := hlt)
  rw [List.getElem_range] at hfound
  exact of_decide_eq_true hfound

theorem firstSlot_before {q : Nat} (h : q < firstSlot P n) : ¬ P q := by
  have hnot := List.not_of_lt_findIdx h
  rw [List.getElem_range] at hnot
  exact of_decide_eq_false hnot

theorem firstSlot_lt (h : ∃ k, k < n ∧ P k) : firstSlot P n < n := by
  obtain ⟨k, hk, hP⟩ := h
  refine Nat.lt_of_le_of_lt ?_ hk
  by_contra hlt
  exact firstSlot_before (Nat.lt_of_not_le hlt) hP

end FirstSlot

/-- The slot the entry goes to. -/
abbrev emptySlot (f : Sectors) (i : Inode) (n : Nat) : Nat :=
  firstSlot (fun k => ¬ SlotLive f i k) n

/-- The reads behind the lookup: the slots of the search, and the block that is written unless the
    entry starts it. -/
def placeReads (f : Sectors) (i : Inode) (n : Nat) : Nat :=
  min (emptySlot f i n + 1) n + if 260 * emptySlot f i n % 512 = 0 then 0 else 1

/-- The pattern hides the name: a read of the lookup fails, and no read after it does. -/
def HidesName (f : Sectors) (i : Inode) (n : Nat) (name : List UInt8) (p : Nat → Bool) : Prop :=
  ∃ r, r ≤ firstSlot (SlotNamed f i name) n ∧ (∀ q, q < r → p q = false) ∧ p r = true ∧
    ∀ q, q < placeReads f i n → p (r + 1 + q) = false

/-- `dir_add` returns an error and changes neither the inode nor a sector. -/
def AddRefused (d : T) (p : Nat → Bool) (i : Inode) (name : List UInt8) (target : UInt32) : Prop :=
  let r := dirAdd name target ((⟨d, p⟩ : Flaky T), i)
  (∃ e, r.1 = .err e) ∧ r.2.2 = i ∧ sectors i.device r.2.1.disk = sectors i.device d

/-- The entry has a block to go to. A directory without an empty slot has one slot only, as the
    second one does not lie within a block. -/
theorem OneBlockDir.target_mapped (h : OneBlockDir f i n) (hn : 0 < n) :
    i.Maps (260 * emptySlot f i n / 512) ∧ 260 * emptySlot f i n + 260 ≤ 32768 := by
  have hsize := h.size
  have hmax := h.whole.size_le
  have hle : emptySlot f i n ≤ n := firstSlot_le
  by_cases hlt : emptySlot f i n < n
  · exact ⟨h.slot_mapped hlt, by omega⟩
  · have hall : ∀ q, q < n → SlotLive f i q := fun q hq =>
      not_not.mp (firstSlot_before (show q < emptySlot f i n by omega))
    have hone : n = 1 := by
      by_contra hne
      have hsecond := h.within 1 (by omega) (hall 1 (by omega))
      omega
    have hempty : emptySlot f i n = 1 := by omega
    have hzero := h.slot_mapped hn
    rw [hempty]
    exact ⟨hzero, by decide⟩

/-- All reads of the search succeed: the entry is written. -/
theorem OneBlockDir.place_ok (h : OneBlockDir f i n) (hn : 0 < n) (hlen : bytes.length = 260)
    (hp : ∀ q, q < placeReads f i n → p q = false) :
    ∃ w, Gives (onView (Flaky.view (T := T) i.device)) (dirPlace bytes (slotsFrom n 0)) ((f, p), i)
      (.ok ()) w := by
  obtain ⟨hm, hroom⟩ := h.target_mapped hn
  unfold placeReads at hp
  have hinner : 260 * emptySlot f i n % 512 ≠ 0 →
      Flaky.after p (min (emptySlot f i n + 1) n) 0 = false := by
    intro hne
    rw [if_neg hne] at hp
    exact hp _ (Nat.lt_succ_self _)
  obtain ⟨w, hw⟩ := h.write_ok (T := T) firstSlot_le hm hroom hlen hinner
  refine ⟨w, h.place_at firstSlot_le (fun q hq => not_not.mp (firstSlot_before hq))
    firstSlot_holds (fun q hq => hp q (Nat.lt_add_right _ hq)) (hw.then (gives_pure ()))⟩

/-- One of them fails: nothing is written. -/
theorem OneBlockDir.place_refused (h : OneBlockDir f i n) (hn : 0 < n) (hlen : bytes.length = 260)
    {r : Nat} (hr : r < placeReads f i n) (hp : ∀ q, q < r → p q = false) (hfail : p r = true) :
    ∃ e q, Gives (onView (Flaky.view (T := T) i.device)) (dirPlace bytes (slotsFrom n 0))
      ((f, p), i) (.err e) ((f, q), i) := by
  obtain ⟨hm, hroom⟩ := h.target_mapped hn
  have hlive : ∀ q, q < emptySlot f i n → SlotLive f i q := fun q hq =>
    not_not.mp (firstSlot_before hq)
  unfold placeReads at hr
  by_cases hslot : r < min (emptySlot f i n + 1) n
  · exact ⟨_, _, h.place_fails (by omega) (fun q hq => hlive q (by omega)) hp hfail⟩
  · -- the read is the one of the block that is written
    have hinner : 260 * emptySlot f i n % 512 ≠ 0 := by
      intro h0
      rw [if_pos h0] at hr
      omega
    have hlast : r = min (emptySlot f i n + 1) n := by
      rw [if_neg hinner] at hr
      omega
    subst hlast
    exact ⟨_, _, h.place_at firstSlot_le hlive firstSlot_holds hp
      (h.write_fails firstSlot_le hm hroom hlen hinner hfail).then_err⟩

/-- The name of an entry fits an entry. -/
theorem SlotNamed.length_le (h : SlotNamed f i name k) : name.length ≤ dirnameSize := by
  have htake : name.length ≤ (entryName (slotBytes f i k)).length := by
    rw [← h.2]
    exact (List.takeWhile_sublist _).length_le
  refine Nat.le_trans htake ?_
  unfold entryName slice
  exact List.length_take_le _ _

/-- The first `m` reads succeed, or one of them is the first to fail. -/
theorem first_failure (p : Nat → Bool) (m : Nat) :
    (∀ q, q < m → p q = false) ∨ ∃ r, r < m ∧ (∀ q, q < r → p q = false) ∧ p r = true := by
  induction m with
  | zero => exact Or.inl fun q hq => absurd hq (Nat.not_lt_zero q)
  | succ m ih =>
    rcases ih with hall | ⟨r, hr, hbefore, hfail⟩
    · cases hm : p m with
      | false =>
        refine Or.inl fun q hq => ?_
        rcases Nat.lt_succ_iff_lt_or_eq.mp hq with hlt | rfl
        · exact hall q hlt
        · exact hm
      | true => exact Or.inr ⟨m, Nat.lt_succ_self m, hall, hm⟩
    · exact Or.inr ⟨r, Nat.lt_succ_of_lt hr, hbefore, hfail⟩

/-- An error of `dir_add` that leaves the sectors and the inode as they were. -/
theorem addRefused_of_gives {d : T} {target : UInt32} {e : FsError} {q : Nat → Bool}
    (h : Gives (onView (Flaky.view (T := T) i.device)) (dirAdd name target)
      ((sectors i.device d, p), i) (.err e) ((sectors i.device d, q), i)) :
    AddRefused d p i name target := by
  obtain ⟨hout, hview⟩ := h (⟨d, p⟩, i) rfl
  obtain ⟨hdisk, hinode⟩ := Prod.mk.inj hview
  exact ⟨⟨e, hout⟩, hinode, (Prod.mk.inj hdisk).1⟩

/-- The lookup finds the name: `dir_add` is done. -/
theorem OneBlockDir.add_seen (h : OneBlockDir f i n) {m : Nat} {target : UInt32} (hm : m < n)
    (hnamed : SlotNamed f i name m) (hfirst : ∀ q, q < m → ¬ SlotNamed f i name q)
    (hp : ∀ q, q ≤ m → p q = false) :
    Gives (onView (Flaky.view (T := T) i.device)) (dirAdd name target) ((f, p), i)
      (.err .entryExists) ((f, Flaky.after p (m + 1)), i) := by
  unfold dirAdd
  refine gives_theInode.then ?_
  exact (h.lookup_found hm hnamed hfirst hp).attempt_ok.onFst.then (gives_fail _)

/-- A read of the lookup fails: `dir_add` goes on as if the name were absent. -/
theorem OneBlockDir.add_unseen (h : OneBlockDir f i n) {r : Nat} {target : UInt32} (hr : r < n)
    (hlen : name.length ≤ dirnameSize) (hfirst : ∀ q, q < r → ¬ SlotNamed f i name q)
    (hp : ∀ q, q < r → p q = false) (hfail : p r = true) {o : Outcome FsError Unit}
    {w : (Sectors × (Nat → Bool)) × Inode}
    (hplace : Gives (onView (Flaky.view (T := T) i.device))
      (dirPlace (direntBytes target name) (slotsFrom n 0)) ((f, Flaky.after p (r + 1)), i) o w) :
    Gives (onView (Flaky.view (T := T) i.device)) (dirAdd name target) ((f, p), i) o w := by
  rw [← h.slotOffsets] at hplace
  unfold dirAdd
  refine gives_theInode.then ?_
  refine (h.lookup_fails hr hfirst hp hfail).attempt_err.onFst.then ?_
  exact (gives_require hlen).then hplace

/-- **A name that is present is refused, unless the pattern hides it.** -/
theorem dirAdd_present_refused_iff (d : T) (p : Nat → Bool) (i : Inode) (name : List UInt8)
    (target : UInt32) {n : Nat} (h : OneBlockDir (sectors i.device d) i n)
    (hname : ∃ k, k < n ∧ SlotNamed (sectors i.device d) i name k) :
    AddRefused d p i name target ↔ ¬ HidesName (sectors i.device d) i n name p := by
  have hm : firstSlot (SlotNamed (sectors i.device d) i name) n < n := firstSlot_lt hname
  have hn : 0 < n := Nat.lt_of_le_of_lt (Nat.zero_le _) hm
  have hnamed := firstSlot_holds hm
  have hlen : (direntBytes target name).length = 260 := length_direntBytes _ hnamed.length_le
  rcases first_failure p (firstSlot (SlotNamed (sectors i.device d) i name) n + 1) with
    hok | ⟨r, hr, hbefore, hfail⟩
  · -- the lookup finds the name
    refine iff_of_true (addRefused_of_gives (h.add_seen hm hnamed (fun q hq => firstSlot_before hq)
      fun q hq => hok q (Nat.lt_succ_of_le hq))) ?_
    rintro ⟨r, hr, _, hfail, _⟩
    exact Bool.false_ne_true ((hok r (Nat.lt_succ_of_le hr)).symm.trans hfail)
  · have hfirst : ∀ q, q < r → ¬ SlotNamed (sectors i.device d) i name q := fun q hq =>
      firstSlot_before (show q < firstSlot (SlotNamed (sectors i.device d) i name) n by omega)
    have hrn : r < n := by omega
    rcases first_failure (Flaky.after p (r + 1)) (placeReads (sectors i.device d) i n) with
      hok | ⟨t, ht, htbefore, htfail⟩
    · -- the lookup misses it, and the search writes the entry
      obtain ⟨w, hw⟩ := h.place_ok (T := T) hn hlen hok
      obtain ⟨hout, _⟩ := h.add_unseen hrn hnamed.length_le hfirst hbefore hfail hw (⟨d, p⟩, i) rfl
      refine iff_of_false ?_ (not_not.mpr ⟨r, Nat.le_of_lt_succ hr, hbefore, hfail, hok⟩)
      rintro ⟨⟨e, he⟩, _⟩
      cases hout.symm.trans he
    · obtain ⟨e, q, hw⟩ := h.place_refused (T := T) hn hlen ht htbefore htfail
      refine iff_of_true (addRefused_of_gives
        (h.add_unseen hrn hnamed.length_le hfirst hbefore hfail hw)) ?_
      rintro ⟨r', _, hbefore', hfail', hlater⟩
      -- both are the first read that fails
      have hsame : r' = r := by
        rcases Nat.lt_trichotomy r' r with hlt | heq | hlt
        · exact absurd ((hbefore r' hlt).symm.trans hfail') Bool.false_ne_true
        · exact heq
        · exact absurd ((hbefore' r hlt).symm.trans hfail) Bool.false_ne_true
      subst hsame
      exact Bool.false_ne_true ((hlater t ht).symm.trans htfail)

end Calls

/-- A block with the entry `a` for inode 5. -/
def entrySector : Sector :=
  ⟨direntBytes 5 [97] ++ List.replicate 252 0, by
    rw [List.length_append, length_direntBytes _ (by decide), List.length_replicate]⟩

/-- A disk with that block at 300. -/
def oneEntryDisk : MemDisk := ⟨fun _ s => if s = 300 then entrySector else Sector.zero⟩

/-- A directory of one entry, in block 300. -/
def oneEntryDir : Inode where
  type_ := .directory
  device := 1
  major := 0
  minor := 0
  size := 260
  blocks := Vector.ofFn fun k => if k.val = 0 then 300 else 0

theorem oneEntryDir_named : SlotNamed (sectors 1 oneEntryDisk) oneEntryDir [97] 0 := by
  decide +kernel

theorem oneEntryDir_oneBlock : OneBlockDir (sectors 1 oneEntryDisk) oneEntryDir 1 where
  type_ := rfl
  whole := by
    intro k hk
    have hk1 : k < 1 := hk
    obtain rfl : k = 0 := by omega
    exact ⟨300, by decide, by decide⟩
  size := by decide
  within := by
    intro k hk _
    omega

/-- The read of the lookup fails, and so does the first one of the search: the name is refused. -/
theorem dirAdd_present_refused_twoErrors :
    AddRefused oneEntryDisk (fun q => q < 2) oneEntryDir [97] 9 := by
  refine (dirAdd_present_refused_iff oneEntryDisk (fun q => q < 2) oneEntryDir [97] 9
    oneEntryDir_oneBlock ⟨0, by decide, oneEntryDir_named⟩).mpr ?_
  rintro ⟨r, _, hbefore, _, hlater⟩
  have hzero : r = 0 := by
    by_contra hne
    exact absurd (hbefore 0 (by omega)) (by decide)
  have hpos : 0 < placeReads (sectors 1 oneEntryDisk) oneEntryDir 1 := by
    unfold placeReads
    omega
  have hsearch := hlater 0 hpos
  rw [hzero] at hsearch
  exact absurd hsearch (by decide)

/-- `dir_add` of the name `a` to that directory, the first read failing. -/
def addAgain : Outcome FsError Unit × Flaky MemDisk × Inode :=
  dirAdd [97] 9 (⟨oneEntryDisk, (· == 0)⟩, oneEntryDir)

/-- **The first read fails, and the name is in the directory twice.** -/
theorem dirAdd_duplicates_name :
    OneBlockDir (sectors 1 oneEntryDisk) oneEntryDir 1 ∧
    SlotNamed (sectors 1 oneEntryDisk) oneEntryDir [97] 0 ∧
    ¬ AddRefused oneEntryDisk (· == 0) oneEntryDir [97] 9 ∧
    addAgain.1 = .ok () ∧ addAgain.2.2.size = 520 ∧
    SlotNamed (sectors 1 addAgain.2.1.disk) addAgain.2.2 [97] 0 ∧
    SlotNamed (sectors 1 addAgain.2.1.disk) addAgain.2.2 [97] 1 := by
  have hok : addAgain.1 = .ok () := by decide +kernel
  refine ⟨oneEntryDir_oneBlock, oneEntryDir_named, ?_, hok, ?_⟩
  · rintro ⟨⟨e, he⟩, _⟩
    cases hok.symm.trans he
  · decide +kernel

end Sprocket.SimpleFs
