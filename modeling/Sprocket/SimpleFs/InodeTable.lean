/-
  File:      Sprocket/SimpleFs/InodeTable.lean
  Subject:   THE INODE TABLE: an array of 256 slots.

  An inode takes 272 of a block's 512 bytes, so every block of the table holds one inode: slot
  `k` is block `1 + k`. `slot f k` is what the code decodes there, `storeInode f k i` the sectors
  with inode `i` in that slot.

  * `allocInode_table`, `allocInode_gives` -- `alloc_inode` takes the first slot of type
    `Unused`, and fails with nothing changed when there is none;
  * `readInode_gives`, `updateInode_gives` -- the other two calls read and replace one slot;
  * `inode_calls_in_table_iff` -- which inode numbers the two calls keep inside the table:
    `read_inode` lets one too many through, `update_inode` checks none.
-/
import Sprocket.SimpleFs.Blocks

namespace Sprocket.SimpleFs

open Bytes Prog

/-! ## 1. Slots -/

/-- The block of slot `k`. -/
def tableBlock (k : Nat) : UInt32 := UInt32.ofNat (1 + k)

/-- The inode in slot `k`. -/
def slot (f : Sectors) (k : Nat) : Option Inode := inodeFrom (f (tableBlock k)).val 0

/-- The sectors with `inode` stored at the start of block `b`. -/
def storeAt (f : Sectors) (b : UInt32) (inode : Inode) : Sectors :=
  Function.update f b ⟨setInode (f b).val 0 inode, length_setInode inode (f b).property⟩

/-- The sectors with `inode` stored in slot `k`. -/
def storeInode (f : Sectors) (k : Nat) (inode : Inode) : Sectors := storeAt f (tableBlock k) inode

theorem toNat_tableBlock {k : Nat} (hk : k < 256) : (tableBlock k).toNat = 1 + k := by
  rw [tableBlock, UInt32.toNat_ofNat']
  omega

theorem isTable_tableBlock {k : Nat} (hk : k < 256) : IsTable (tableBlock k) := by
  unfold IsTable
  rw [toNat_tableBlock hk]
  omega

theorem tableBlock_inj {k m : Nat} (hk : k < 256) (hm : m < 256)
    (h : tableBlock k = tableBlock m) : k = m := by
  have h' := congrArg UInt32.toNat h
  rw [toNat_tableBlock hk, toNat_tableBlock hm] at h'
  omega

/-- A block of the table is the block of a slot. -/
theorem IsTable.eq_tableBlock {b : UInt32} (h : IsTable b) : ∃ k, k < 256 ∧ b = tableBlock k := by
  obtain ⟨h1, h2⟩ := h
  refine ⟨b.toNat - 1, by omega, ?_⟩
  have e : 1 + (b.toNat - 1) = b.toNat := by omega
  rw [tableBlock, e, UInt32.ofNat_toNat]

theorem inodeFrom_storeAt_self (f : Sectors) (b : UInt32) (inode : Inode) :
    inodeFrom (storeAt f b inode b).val 0 = some inode := by
  rw [storeAt, Function.update_self]
  exact inodeFrom_splice inode (Nat.zero_le _)

theorem storeAt_other {f : Sectors} {b c : UInt32} {inode : Inode} (h : c ≠ b) :
    storeAt f b inode c = f c := Function.update_of_ne h _ _

theorem slot_storeInode_self (f : Sectors) (k : Nat) (inode : Inode) :
    slot (storeInode f k inode) k = some inode := inodeFrom_storeAt_self f (tableBlock k) inode

/-- Storing an inode leaves every other block alone. -/
theorem storeInode_other {f : Sectors} {k : Nat} {inode : Inode} {b : UInt32}
    (h : b ≠ tableBlock k) : storeInode f k inode b = f b := storeAt_other h

theorem slot_storeInode_other {f : Sectors} {k m : Nat} {inode : Inode} (hk : k < 256)
    (hm : m < 256) (h : m ≠ k) : slot (storeInode f k inode) m = slot f m := by
  rw [slot, storeInode_other fun e => h (tableBlock_inj hm hk e), slot]

theorem storeInode_zero {f : Sectors} {k : Nat} {inode : Inode} (hk : k < 256) :
    storeInode f k inode 0 = f 0 :=
  storeInode_other (isTable_tableBlock hk).ne_zero.symm

theorem storeInode_data {f : Sectors} {k : Nat} {inode : Inode} {b : UInt32} (hk : k < 256)
    (hb : IsData b) : storeInode f k inode b = f b := by
  refine storeInode_other fun e => ?_
  rw [e] at hb
  exact (isTable_tableBlock hk).not_data hb

/-- Storing an inode touches neither the superblock nor a free block. -/
theorem Freelist.storeInode {f : Sectors} {st : List UInt32} (h : Freelist f st)
    (hdata : ∀ b ∈ st, IsData b) {k : Nat} (hk : k < 256) (inode : Inode) :
    Freelist (storeInode f k inode) st := by
  refine h.congr ?_ fun b hb => storeInode_data hk (hdata b hb)
  rw [freelistHead, storeInode_zero hk, freelistHead]

/-- Storing an inode keeps the file system well formed. -/
theorem WellFormed.storeInode {f : Sectors} {st : List UInt32} (h : WellFormed f st) {k : Nat}
    (hk : k < 256) (inode : Inode) : WellFormed (storeInode f k inode) st := by
  refine ⟨?_, ?_, h.freelist.storeInode h.free_data hk inode, h.free_data⟩
  · rw [storeInode_zero hk, h.inodeStart]
  · intro b hb
    obtain ⟨m, hm, rfl⟩ := hb.eq_tableBlock
    by_cases e : m = k
    · subst e
      exact ⟨inode, slot_storeInode_self f m inode⟩
    · obtain ⟨i, hi⟩ := h.table _ hb
      exact ⟨i, (slot_storeInode_other hk hm e).trans hi⟩

theorem WellFormed.slot {f : Sectors} {st : List UInt32} (h : WellFormed f st) {k : Nat}
    (hk : k < 256) : ∃ i, slot f k = some i := h.table _ (isTable_tableBlock hk)

/-! ## 2. Unused slots -/

/-- Slot `k` holds an unused inode. -/
def isUnused (f : Sectors) (k : Nat) : Bool := (slot f k).any fun i => i.type_ == .unused

/-- The unused slots, in the order of the table. -/
def unusedSlots (f : Sectors) : List Nat := (List.range 256).filter (isUnused f)

theorem isUnused_eq {f : Sectors} {k : Nat} {i : Inode} (h : slot f k = some i) :
    isUnused f k = (i.type_ == .unused) := by
  rw [isUnused, h]
  rfl

theorem isUnused_iff {f : Sectors} {k : Nat} :
    isUnused f k = true ↔ ∃ i, slot f k = some i ∧ i.type_ = .unused := by
  rw [isUnused, Option.any_eq_true_iff_get]
  constructor
  · intro ⟨hsome, h⟩
    exact ⟨_, (Option.some_get hsome).symm, by simpa using h⟩
  · intro ⟨i, hi, hu⟩
    simp [hi, hu]

theorem unusedSlots_head {f : Sectors} {k : Nat} {rest : List Nat} (h : unusedSlots f = k :: rest) :
    k < 256 ∧ isUnused f k = true := by
  have hm : k ∈ unusedSlots f := by rw [h]; exact List.mem_cons_self
  rw [unusedSlots, List.mem_filter, List.mem_range] at hm
  exact hm

theorem unusedSlots_congr {f g : Sectors} (h : ∀ k, k < 256 → isUnused g k = isUnused f k) :
    unusedSlots g = unusedSlots f :=
  List.filter_congr fun k hk => h k (List.mem_range.mp hk)

/-- Storing a used inode in the first unused slot leaves the rest of them. -/
theorem unusedSlots_storeInode {f : Sectors} {k : Nat} {rest : List Nat} {inode : Inode}
    (h : unusedSlots f = k :: rest) (ht : inode.type_ ≠ .unused) :
    unusedSlots (storeInode f k inode) = rest := by
  have hk := (unusedSlots_head h).1
  have hnd : (k :: rest).Nodup := by
    rw [← h]
    exact List.nodup_range.sublist List.filter_sublist
  -- the new predicate is the old one without `k`
  have hp : unusedSlots (storeInode f k inode) = (unusedSlots f).filter (· != k) := by
    rw [unusedSlots, unusedSlots, List.filter_filter]
    refine List.filter_congr fun m hm => ?_
    by_cases e : m = k
    · subst e
      rw [isUnused_eq (slot_storeInode_self f m inode)]
      simp [ht]
    · rw [isUnused, slot_storeInode_other hk (List.mem_range.mp hm) e, isUnused]
      simp [e]
  rw [hp, h, List.filter_cons_of_neg (by simp), List.filter_eq_self]
  intro m hm
  have hne : m ≠ k := fun e => (List.nodup_cons.mp hnd).1 (e ▸ hm)
  simpa using hne

/-! ## 3. The three calls -/

section Calls

variable {T : Type} [Disk T] [FaultFree T] {dev : UInt32} {f : Sectors}

section Scan

variable {inode i : Inode} {k : Nat} {ks : List Nat} {block : List UInt8}

theorem inodesOf_slot (hi : slot f k = some i) : inodesOf (f (tableBlock k)).val = some [i] := by
  rw [inodesOf_eq]
  exact congrArg (Option.map _) hi

theorem inodesOf_slot_none (hi : slot f k = none) : inodesOf (f (tableBlock k)).val = none := by
  rw [inodesOf_eq]
  exact congrArg (Option.map _) hi

/-- The scan stops at an unused slot. -/
theorem allocInodeIn_hit (hlen : block.length = 512) (hi : slot f k = some i)
    (hu : i.type_ = .unused) :
    Gives (sectors (T := T) dev) (allocInodeIn dev inode 1 ((k :: ks).map (1 + ·)) block) f
      (.ok (UInt32.ofNat k)) (storeInode f k inode) := by
  have hfind : [i].findIdx? (fun y => y.type_ == .unused) = some 0 := by
    simp [List.findIdx?_cons, hu]
  have e : (1 + k - 1) * inodesPerBlock + 0 = k := by
    simp only [inodesPerBlock, blockSize, inodeSize]
    omega
  rw [List.map_cons, allocInodeIn]
  refine (diskRead_block hlen).then ((gives_ofOption (inodesOf_slot hi)).then ?_)
  rw [hfind]
  refine (diskWrite_block (length_setInode inode (f _).property)).then ?_
  rw [e]
  exact gives_pure _

/-- The scan passes a used slot. -/
theorem allocInodeIn_skip (hlen : block.length = 512) (hi : slot f k = some i)
    (hu : i.type_ ≠ .unused) {Q : Outcome FsError UInt32 → Sectors → Prop}
    (hrest : ∀ block' : List UInt8, block'.length = 512 →
      Ends (sectors (T := T) dev) (allocInodeIn dev inode 1 (ks.map (1 + ·)) block') f Q) :
    Ends (sectors (T := T) dev) (allocInodeIn dev inode 1 ((k :: ks).map (1 + ·)) block) f Q := by
  have hfind : [i].findIdx? (fun y => y.type_ == .unused) = none := by
    simp [List.findIdx?_cons, hu]
  rw [List.map_cons, allocInodeIn]
  refine (diskRead_block hlen).then ((gives_ofOption (inodesOf_slot hi)).then ?_)
  rw [hfind]
  exact hrest _ (f _).property

end Scan

/-- The scan over the slots `ks`, up to the first unused one. -/
theorem allocInodeIn_gives (dev : UInt32) (inode : Inode) : ∀ (ks : List Nat) (block : List UInt8),
    block.length = 512 → (∀ k ∈ ks, k < 256 ∧ ∃ i, slot f k = some i) →
    ((ks.filter (isUnused f) = [] →
      Gives (sectors (T := T) dev) (allocInodeIn dev inode 1 (ks.map (1 + ·)) block) f
        (.err .exhaustedInodes) f) ∧
    ∀ k rest, ks.filter (isUnused f) = k :: rest →
      Gives (sectors (T := T) dev) (allocInodeIn dev inode 1 (ks.map (1 + ·)) block) f
        (.ok (UInt32.ofNat k)) (storeInode f k inode))
  | [], _, _, _ => ⟨fun _ => gives_fail _, fun _ _ h => by cases h⟩
  | k :: ks, block, hlen, hks => by
      obtain ⟨hk, i, hi⟩ := hks k List.mem_cons_self
      have ih := fun (block' : List UInt8) (hlen' : block'.length = 512) =>
        allocInodeIn_gives dev inode ks block' hlen' fun m hm => hks m (List.mem_cons_of_mem k hm)
      by_cases hu : i.type_ = .unused
      · have hun : isUnused f k = true := by
          rw [isUnused_eq hi, hu]
          rfl
        rw [List.filter_cons_of_pos hun]
        refine ⟨fun h => absurd h (List.cons_ne_nil _ _), fun m rest hm => ?_⟩
        obtain ⟨rfl, _⟩ := List.cons.inj hm
        exact allocInodeIn_hit hlen hi hu
      · have hun : isUnused f k = false := by
          rw [isUnused_eq hi]
          simpa using hu
        rw [List.filter_cons_of_neg (by rw [hun]; decide)]
        exact ⟨fun h => allocInodeIn_skip hlen hi hu fun block' hlen' => (ih block' hlen').1 h,
          fun m rest hm => allocInodeIn_skip hlen hi hu fun block' hlen' =>
            (ih block' hlen').2 m rest hm⟩

theorem blockRange_table : blockRange 1 (numInodes / inodesPerBlock + 1) =
    (List.range 256).map (1 + ·) :=
  List.range'_eq_map_range

section Alloc

variable {st : List UInt32} {inode : Inode}

/-- What precedes the scan. -/
theorem allocInode_scan (hstart : (bufferToSb (f 0).val).inodeStart = 1)
    (ht : inode.type_ ≠ .unused) {Q : Outcome FsError UInt32 → Sectors → Prop}
    (h : Ends (sectors (T := T) dev)
      (allocInodeIn dev inode 1 ((List.range 256).map (1 + ·)) zeroBlock) f Q) :
    Ends (sectors (T := T) dev) (allocInode dev inode) f Q := by
  unfold allocInode
  refine (gives_require ht).then (diskRead_zero.then ?_)
  have hnat : (bufferToSb (f superblockAddr).val).inodeStart.toNat = 1 := by
    rw [hstart]
    rfl
  rw [hnat]
  dsimp only
  rw [blockRange_table]
  exact h

theorem range_slots : List.range 256 = 0 :: List.range' 1 255 := List.range_eq_range'

/-- With slot 0 unused `alloc_inode` looks no further. -/
theorem allocInode_first (hstart : (bufferToSb (f 0).val).inodeStart = 1)
    (ht : inode.type_ ≠ .unused) (h0 : isUnused f 0 = true) :
    Gives (sectors (T := T) dev) (allocInode dev inode) f (.ok 0) (storeInode f 0 inode) := by
  obtain ⟨i, hi, hu⟩ := isUnused_iff.mp h0
  refine allocInode_scan hstart ht ?_
  rw [range_slots]
  exact allocInodeIn_hit List.length_replicate hi hu

/-- With slot 0 in use a scan does not return 0, whatever the slots hold. -/
theorem allocInodeIn_ne_zero (h0 : isUnused f 0 = false) : ∀ (ks : List Nat) (block : List UInt8),
    block.length = 512 → (∀ k ∈ ks, k < 256) →
    Ends (sectors (T := T) dev) (allocInodeIn dev inode 1 (ks.map (1 + ·)) block) f
      fun o _ => o ≠ .ok 0
  | [], _, _, _ => ends_fail nofun
  | k :: ks, block, hlen, hks => by
      cases hi : slot f k with
      | none =>
        rw [List.map_cons, allocInodeIn]
        refine (diskRead_block hlen).then ?_
        rw [← tableBlock, inodesOf_slot_none hi]
        exact (Gives.then_panic gives_crash).ends nofun
      | some i =>
        by_cases hu : i.type_ = .unused
        · refine (allocInodeIn_hit hlen hi hu).ends fun e => ?_
          have hk := hks k List.mem_cons_self
          have e' := congrArg UInt32.toNat (Outcome.ok.inj e)
          rw [UInt32.toNat_ofNat_of_lt' (Nat.lt_trans hk (by decide))] at e'
          have hk0 : k = 0 := e'
          subst hk0
          rw [isUnused_eq hi, hu] at h0
          cases h0
        · exact allocInodeIn_skip hlen hi hu fun block' hlen' =>
            allocInodeIn_ne_zero h0 ks block' hlen' fun m hm => hks m (List.mem_cons_of_mem k hm)

/-- With slot 0 in use `alloc_inode` does not return 0. -/
theorem allocInode_ne_zero (hstart : (bufferToSb (f 0).val).inodeStart = 1)
    (ht : inode.type_ ≠ .unused) (h0 : isUnused f 0 = false) :
    Ends (sectors (T := T) dev) (allocInode dev inode) f fun o _ => o ≠ .ok 0 :=
  allocInode_scan hstart ht (allocInodeIn_ne_zero h0 _ _ List.length_replicate fun _ hk =>
    List.mem_range.mp hk)

/-- `alloc_inode` on a table of inodes: the first unused slot, or none. -/
theorem allocInode_table (dev : UInt32) (hstart : (bufferToSb (f 0).val).inodeStart = 1)
    (hslots : ∀ k, k < 256 → ∃ i, slot f k = some i) (ht : inode.type_ ≠ .unused) :
    (unusedSlots f = [] →
      Gives (sectors (T := T) dev) (allocInode dev inode) f (.err .exhaustedInodes) f) ∧
    ∀ k rest, unusedSlots f = k :: rest →
      Gives (sectors (T := T) dev) (allocInode dev inode) f (.ok (UInt32.ofNat k))
        (storeInode f k inode) := by
  have hscan := allocInodeIn_gives (T := T) dev inode (List.range 256) zeroBlock
    List.length_replicate fun m hm => ⟨List.mem_range.mp hm, hslots m (List.mem_range.mp hm)⟩
  exact ⟨fun hk => allocInode_scan hstart ht (hscan.1 hk),
    fun k rest hk => allocInode_scan hstart ht (hscan.2 k rest hk)⟩

/-- **`alloc_inode` stores the inode in the first unused slot.** -/
theorem allocInode_gives (hwf : WellFormed f st) (ht : inode.type_ ≠ .unused) {k : Nat}
    {rest : List Nat} (hk : unusedSlots f = k :: rest) :
    Gives (sectors (T := T) dev) (allocInode dev inode) f (.ok (UInt32.ofNat k))
      (storeInode f k inode) :=
  (allocInode_table dev hwf.inodeStart (fun _ hm => hwf.slot hm) ht).2 k rest hk

end Alloc

theorem div_inodesPerBlock (n : Nat) : n / inodesPerBlock = n := Nat.div_one n

/-- The block of an inode, wherever the table starts. -/
theorem gives_iblock {inum : UInt32} {start : Nat}
    (hstart : (bufferToSb (f 0).val).inodeStart.toNat = start)
    (hfit : start + inum.toNat < 2 ^ 32) :
    Gives (sectors (T := T) dev) (iblock inum.toNat (bufferToSb (f 0).val) : Prog T FsError Nat) f
      (.ok (start + inum.toNat)) f := by
  rw [iblock, div_inodesPerBlock, hstart]
  exact gives_checkedAdd hfit

theorem iblock_overflows {inum : UInt32} {start : Nat}
    (hstart : (bufferToSb (f 0).val).inodeStart.toNat = start)
    (hover : 2 ^ 32 ≤ start + inum.toNat) :
    Gives (sectors (T := T) dev) (iblock inum.toNat (bufferToSb (f 0).val) : Prog T FsError Nat) f
      .panic f := by
  rw [iblock, div_inodesPerBlock, hstart]
  exact gives_checkedAdd_over hover

theorem mod_inodesPerBlock (n : Nat) : n % inodesPerBlock = 0 := Nat.mod_one n

/-- What `read_inode` makes of the inode in a block: a tag that is no `InodeType` has no value. -/
def decoded : Option Inode → Outcome FsError Inode
  | some i => .ok i
  | none => .panic

theorem decoded_eq_ok {o : Option Inode} {i : Inode} (h : decoded o = .ok i) : o = some i := by
  cases o with
  | some j => exact congrArg some (Outcome.ok.inj h)
  | none => cases h

/-- `read_inode`, for every number its check lets through. -/
theorem readInode_at {inum : UInt32} (hstart : (bufferToSb (f 0).val).inodeStart = 1)
    (hk : inum.toNat ≤ 256) :
    Gives (sectors (T := T) dev) (readInode dev inum) f (decoded (slot f inum.toNat)) f := by
  have hone : (bufferToSb (f 0).val).inodeStart.toNat = 1 := by
    rw [hstart]
    rfl
  unfold readInode
  refine (gives_require hk).then (diskRead_zero.then ?_)
  refine (gives_iblock hone (by omega)).then (diskRead_zero.then ?_)
  rw [mod_inodesPerBlock]
  show Gives _ (ofOption (inodesOf (f (tableBlock inum.toNat)).val) >>= _) _ _ _
  cases hi : slot f inum.toNat with
  | some i => exact (gives_ofOption (inodesOf_slot hi)).then (gives_ofOption rfl)
  | none =>
    rw [inodesOf_slot_none hi]
    exact Gives.then_panic gives_crash

/-- **`read_inode` returns the slot.** -/
theorem readInode_gives {inum : UInt32} {i : Inode}
    (hstart : (bufferToSb (f 0).val).inodeStart = 1) (hk : inum.toNat < 256)
    (hi : slot f inum.toNat = some i) :
    Gives (sectors (T := T) dev) (readInode dev inum) f (.ok i) f := by
  have hdecoded : decoded (slot f inum.toNat) = .ok i := congrArg decoded hi
  rw [← hdecoded]
  exact readInode_at hstart (Nat.le_of_lt hk)

theorem readInode_refused {inum : UInt32} (hk : 256 < inum.toNat) :
    Gives (sectors (T := T) dev) (readInode dev inum) f .panic f :=
  Gives.then_panic (gives_require_not (Nat.not_le_of_lt hk))

/-- `update_inode` with a table that starts anywhere: the inode is stored in its block. -/
theorem updateInode_at (inum : UInt32) {inode : Inode} {start : Nat}
    (hstart : (bufferToSb (f 0).val).inodeStart.toNat = start)
    (hfit : start + inum.toNat < 2 ^ 32) (hdev : inode.device = dev) :
    Gives (sectors (T := T) dev) (updateInode inum inode) f (.ok ())
      (storeAt f (UInt32.ofNat (start + inum.toNat)) inode) := by
  unfold updateInode
  rw [hdev]
  refine diskRead_zero.then ((gives_iblock hstart hfit).then (diskRead_zero.then ?_))
  rw [mod_inodesPerBlock]
  exact (diskWrite_block (length_setInode inode (f _).property)).then (gives_pure ())

/-- **`update_inode` replaces the slot.** -/
theorem updateInode_gives {inum : UInt32} {inode : Inode}
    (hstart : (bufferToSb (f 0).val).inodeStart = 1) (hk : inum.toNat < 256)
    (hdev : inode.device = dev) :
    Gives (sectors (T := T) dev) (updateInode inum inode) f (.ok ())
      (storeInode f inum.toNat inode) :=
  updateInode_at inum (by rw [hstart]; rfl) (by omega) hdev

theorem updateInode_overflows {inum : UInt32} {inode : Inode} {start : Nat}
    (hstart : (bufferToSb (f 0).val).inodeStart.toNat = start)
    (hover : 2 ^ 32 ≤ start + inum.toNat) (hdev : inode.device = dev) :
    Gives (sectors (T := T) dev) (updateInode inum inode) f .panic f := by
  unfold updateInode
  rw [hdev]
  exact diskRead_zero.then (Gives.then_panic (iblock_overflows hstart hover))

end Calls

/-! ## 4. Inode numbers behind the table -/

/-- The superblock and the inode table are the same. -/
def SameTable (f g : Sectors) : Prop := g 0 = f 0 ∧ ∀ b, IsTable b → g b = f b

theorem storeAt_sameTable (f : Sectors) {b : UInt32} (hb : IsData b) (inode : Inode) :
    SameTable f (storeAt f b inode) := by
  refine ⟨storeAt_other hb.ne_zero.symm, fun c hc => storeAt_other ?_⟩
  intro e
  rw [e] at hc
  exact hc.not_data hb

/-- Some inode of the device is not the one in the block. -/
theorem exists_other_inode (o : Option Inode) (dev : UInt32) :
    ∃ inode : Inode, inode.device = dev ∧ o ≠ some inode := by
  by_cases h : o = some (freshInode .file dev)
  · refine ⟨freshInode .directory dev, rfl, ?_⟩
    rw [h]
    nofun
  · exact ⟨freshInode .file dev, rfl, h⟩

section Bounds

variable {T : Type} [Disk T] [FaultFree T] (dev inum : UInt32)

/-- **`read_inode` keeps to the table**: it returns nothing but an inode of the table, and what it
    returns is decided by the superblock and the table alone. -/
def ReadsTable (d : T) : Prop :=
  (∀ i, (readInode dev inum d).1 = .ok i → ∃ k < numInodes, slot (sectors dev d) k = some i) ∧
  ∀ d' : T, SameTable (sectors dev d) (sectors dev d') →
    (readInode dev inum d').1 = (readInode dev inum d).1

/-- **`update_inode` keeps to the table**: whatever the inode, no other block changes. -/
def UpdatesTable (d : T) : Prop :=
  ∀ inode : Inode, inode.device = dev → ∀ b, ¬ IsTable b →
    sectors dev (updateInode inum inode d).2 b = sectors dev d b

variable {dev inum} {d : T} (hstart : (bufferToSb (sectors dev d 0).val).inodeStart = 1)

include hstart

theorem readsTable_inside (hk : inum.toNat < 256) : ReadsTable dev inum d := by
  have hread := (readInode_at (T := T) hstart (Nat.le_of_lt hk) d rfl).1
  refine ⟨fun i hi => ⟨inum.toNat, hk, ?_⟩, fun d' hsame => ?_⟩
  · rw [hread] at hi
    exact decoded_eq_ok hi
  · have hstart' : (bufferToSb (sectors dev d' 0).val).inodeStart = 1 := by rw [hsame.1, hstart]
    have hslot : slot (sectors dev d') inum.toNat = slot (sectors dev d) inum.toNat := by
      rw [slot, hsame.2 _ (isTable_tableBlock hk), slot]
    rw [(readInode_at (T := T) hstart' (Nat.le_of_lt hk) d' rfl).1, hread, hslot]

/-- Number 256 is let through, and its block is the first data block. -/
theorem not_readsTable (hk : inum.toNat = 256) : ¬ ReadsTable dev inum d := by
  intro h
  have hblock : (UInt32.ofNat (1 + inum.toNat)).toNat = 257 := by
    rw [hk]
    rfl
  obtain ⟨inode, hdev, hne⟩ := exists_other_inode (slot (sectors dev d) inum.toNat) dev
  have hone : (bufferToSb (sectors dev d 0).val).inodeStart.toNat = 1 := by
    rw [hstart]
    rfl
  have hstore := (updateInode_at (T := T) inum hone (by omega) hdev d rfl).2
  have hdata : IsData (UInt32.ofNat (1 + inum.toNat)) := Nat.le_of_eq hblock.symm
  have hsame := storeAt_sameTable (sectors dev d) hdata inode
  rw [← hstore] at hsame
  have hstart' : (bufferToSb (sectors dev (updateInode inum inode d).2 0).val).inodeStart = 1 := by
    rw [hsame.1, hstart]
  have hslot : slot (sectors dev (updateInode inum inode d).2) inum.toNat = some inode := by
    rw [hstore]
    exact inodeFrom_storeAt_self _ _ inode
  have heq := h.2 _ hsame
  rw [(readInode_at (T := T) hstart' (Nat.le_of_eq hk) _ rfl).1, hslot,
    (readInode_at (T := T) hstart (Nat.le_of_eq hk) d rfl).1] at heq
  exact hne (decoded_eq_ok heq.symm)

/-- A number behind the table that does not overflow: the block is overwritten. -/
theorem not_updatesTable (hk : 256 ≤ inum.toNat) (hfit : 1 + inum.toNat < 2 ^ 32) :
    ¬ UpdatesTable dev inum d := by
  intro h
  have hblock : (UInt32.ofNat (1 + inum.toNat)).toNat = 1 + inum.toNat :=
    UInt32.toNat_ofNat_of_lt' hfit
  obtain ⟨inode, hdev, hne⟩ := exists_other_inode
    (inodeFrom (sectors dev d (UInt32.ofNat (1 + inum.toNat))).val 0) dev
  have hone : (bufferToSb (sectors dev d 0).val).inodeStart.toNat = 1 := by
    rw [hstart]
    rfl
  have hstore := (updateInode_at (T := T) inum hone hfit hdev d rfl).2
  have hout : ¬ IsTable (UInt32.ofNat (1 + inum.toNat)) := by
    intro ht
    have hlast := ht.2
    omega
  have hsame := h inode hdev _ hout
  rw [hstore] at hsame
  rw [← hsame] at hne
  exact hne (inodeFrom_storeAt_self _ _ inode)

/-- **Which inode numbers stay inside the table.** On a fault-free disk whose table starts at block
    1, whatever its blocks hold: `read_inode` keeps to the table for every number but 256, which
    its check lets through; `update_inode`, which has no check, only for the 256 numbers of the
    table and for the largest one, whose block number overflows. -/
theorem inode_calls_in_table_iff :
    (ReadsTable dev inum d ↔ inum.toNat ≠ numInodes) ∧
    (UpdatesTable dev inum d ↔ inum.toNat < numInodes ∨ inum.toNat = 2 ^ 32 - 1) := by
  have hlt := inum.toNat_lt
  have hnum : numInodes = 256 := rfl
  constructor
  · constructor
    · intro h hk
      exact not_readsTable hstart hk h
    · intro hk
      by_cases hin : inum.toNat < 256
      · exact readsTable_inside hstart hin
      · -- the check of `read_inode` fails, on every disk
        have hpanic : ∀ d' : T, (readInode dev inum d').1 = .panic := fun d' =>
          (readInode_refused (T := T) (by omega) d' rfl).1
        refine ⟨fun i hi => ?_, fun d' _ => ?_⟩
        · rw [hpanic d] at hi
          cases hi
        · rw [hpanic d', hpanic d]
  · constructor
    · intro h
      by_contra hk
      exact not_updatesTable hstart (by omega) (by omega) h
    · intro hk inode hdev b hb
      cases hk with
      | inl hin =>
        rw [(updateInode_gives (T := T) hstart hin hdev d rfl).2]
        refine storeInode_other fun e => ?_
        rw [e] at hb
        exact hb (isTable_tableBlock hin)
      | inr hmax =>
        have hone : (bufferToSb (sectors dev d 0).val).inodeStart.toNat = 1 := by
          rw [hstart]
          rfl
        rw [(updateInode_overflows (T := T) hone (by omega) hdev d rfl).2]

end Bounds

/-- The last inode of a disk with one free block. -/
theorem inode_calls_in_table_last :
    ReadsTable 1 255 oneBlockDisk ∧ UpdatesTable 1 255 oneBlockDisk := by
  have hstart := (oneBlockDisk_wellFormed 1).inodeStart
  exact ⟨(inode_calls_in_table_iff hstart).1.mpr (by decide),
    (inode_calls_in_table_iff hstart).2.mpr (Or.inl (by decide))⟩

/-- **Inode 256 is the freelist.** On a disk whose one free block is 257, `read_inode(256)` decodes
    that block, and `update_inode(256, ..)` overwrites it: the next allocation takes a word of the
    stored inode for a free block, and hands out block 1, which is inode 0. -/
theorem inode_behind_table :
    WellFormed (sectors 1 oneBlockDisk) [257] ∧
    (readInode 1 256 oneBlockDisk).1 = .ok unusedInode ∧
    (updateInode 256 (freshInode .file 1) oneBlockDisk).1 = .ok () ∧
    (allocBlock 1 oneBlockDisk).1 = .ok 257 ∧
    (allocBlock 1 (updateInode 256 (freshInode .file 1) oneBlockDisk).2).1 = .ok 1 := by
  have hwf := oneBlockDisk_wellFormed 1
  have hone : (bufferToSb (sectors 1 oneBlockDisk 0).val).inodeStart.toNat = 1 := by
    rw [hwf.inodeStart]
    rfl
  have hslot : slot (sectors 1 oneBlockDisk) 256 = some unusedInode := by decide +kernel
  obtain ⟨_, halloc, _⟩ := allocBlock_pop (T := MemDisk) 1 hwf.freelist
  refine ⟨hwf, ?_, ?_, (halloc oneBlockDisk rfl).1, ?_⟩
  · exact (readInode_at hwf.inodeStart (by decide) oneBlockDisk rfl).1.trans
      (congrArg decoded hslot)
  · exact (updateInode_at 256 hone (by decide) rfl oneBlockDisk rfl).1
  · decide +kernel

end Sprocket.SimpleFs
