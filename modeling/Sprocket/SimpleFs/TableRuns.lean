/-
  File:      Sprocket/SimpleFs/TableRuns.lean
  Subject:   WHOLE RUNS OF THE INODE TABLE REFINE AN ARRAY OF INODES.

  InodeTable.lean proves what one call does to one slot. Here `alloc_inode`, `update_inode` and
  `read_inode` are put in sequence, on any of the device numbers that name the disk (an
  `update_inode` goes to the device its inode names):

  * `TableStep` -- one call on a disk, with its result;
  * `ArrayStep` -- the same call on a plain array of 256 inodes;
  * `inodeTable_refines_array` -- every run is a run of the array with the same results, and
    changes neither the superblock nor a data block.
-/
import Sprocket.Lib.Trace
import Sprocket.SimpleFs.InodeTable

namespace Sprocket.SimpleFs

open Bytes Prog

/-! ## 1. The array a disk holds -/

/-- The inode table as an array. -/
abbrev InodeArray : Type := Fin 256 → Inode

/-- The sectors hold the array: the table starts at block 1, and slot `k` decodes to entry `k`. -/
structure HoldsArray (f : Sectors) (a : InodeArray) : Prop where
  inodeStart : (bufferToSb (f 0).val).inodeStart = 1
  slots : ∀ k : Fin 256, slot f k = some (a k)

/-- A call spares the superblock and the data blocks. -/
def TableOnly (f g : Sectors) : Prop := ∀ b, b = 0 ∨ IsData b → g b = f b

theorem TableOnly.trans {f g h : Sectors} (h1 : TableOnly f g) (h2 : TableOnly g h) :
    TableOnly f h := fun b hb => (h2 b hb).trans (h1 b hb)

theorem tableOnly_storeInode (f : Sectors) (k : Fin 256) (inode : Inode) :
    TableOnly f (storeInode f k inode) := by
  intro b hb
  cases hb with
  | inl h0 =>
    subst h0
    exact storeInode_zero k.isLt
  | inr hdata => exact storeInode_data k.isLt hdata

/-- Storing an inode is an assignment to the array. -/
theorem HoldsArray.store {f : Sectors} {a : InodeArray} (h : HoldsArray f a) (k : Fin 256)
    (inode : Inode) : HoldsArray (storeInode f k inode) (Function.update a k inode) := by
  constructor
  · rw [tableOnly_storeInode f k inode 0 (Or.inl rfl)]
    exact h.inodeStart
  · intro m
    by_cases hm : m = k
    · subst hm
      rw [Function.update_self]
      exact slot_storeInode_self f m inode
    · rw [Function.update_of_ne hm, slot_storeInode_other k.isLt m.isLt fun e => hm (Fin.ext e)]
      exact h.slots m

theorem HoldsArray.isUnused {f : Sectors} {a : InodeArray} (h : HoldsArray f a) (k : Fin 256) :
    isUnused f k = true ↔ (a k).type_ = .unused := by
  rw [isUnused_eq (h.slots k)]
  simp

/-- No slot is unused. -/
theorem HoldsArray.unusedSlots_nil {f : Sectors} {a : InodeArray} (h : HoldsArray f a) :
    unusedSlots f = [] ↔ ∀ k, (a k).type_ ≠ .unused := by
  rw [unusedSlots, List.filter_eq_nil_iff]
  constructor
  · intro hall k hk
    exact hall k (List.mem_range.mpr k.isLt) ((h.isUnused k).mpr hk)
  · intro hall k hk hu
    have hlt := List.mem_range.mp hk
    exact hall ⟨k, hlt⟩ ((h.isUnused ⟨k, hlt⟩).mp hu)

/-- The first unused slot is the least index of an unused inode. -/
theorem HoldsArray.unusedSlots_cons {f : Sectors} {a : InodeArray} (h : HoldsArray f a) {n : Nat}
    {rest : List Nat} (hn : unusedSlots f = n :: rest) :
    ∃ k : Fin 256, k.val = n ∧ (a k).type_ = .unused ∧ ∀ m, m < k → (a m).type_ ≠ .unused := by
  obtain ⟨hlt, hu⟩ := unusedSlots_head hn
  refine ⟨⟨n, hlt⟩, rfl, (h.isUnused ⟨n, hlt⟩).mp hu, fun m hm hmu => ?_⟩
  -- the list is increasing, so an unused slot below its head would stand before it
  have hsorted : (n :: rest).Pairwise (· < ·) := by
    rw [← hn]
    exact List.pairwise_lt_range.sublist List.filter_sublist
  have hmem : m.val ∈ unusedSlots f :=
    List.mem_filter.mpr ⟨List.mem_range.mpr m.isLt, (h.isUnused m).mpr hmu⟩
  have hmn : m.val < n := hm
  rw [hn] at hmem
  cases List.mem_cons.mp hmem with
  | inl e => omega
  | inr hr =>
    have := (List.pairwise_cons.mp hsorted).1 _ hr
    omega

/-! ## 2. The two machines -/

/-- A call of the inode table with its result. -/
inductive TableEvent where
  | alloc (inode : Inode) (result : Outcome FsError UInt32)
  | update (k : Fin 256) (inode : Inode) (result : Outcome FsError Unit)
  | read (k : Fin 256) (result : Outcome FsError Inode)

/-- An index of the table as an inode number. -/
def inumOf (k : Fin 256) : UInt32 := UInt32.ofNat k

theorem toNat_inumOf (k : Fin 256) : (inumOf k).toNat = k := by
  rw [inumOf, UInt32.toNat_ofNat']
  omega

section Runs

variable {T : Type} [Disk T] [FaultFree T]

/-- One call on a disk that the device numbers `D` name. -/
inductive TableStep (D : Set UInt32) : T → TableEvent → T → Prop where
  | alloc (d : T) {dev : UInt32} (hdev : dev ∈ D) (inode : Inode) (ht : inode.type_ ≠ .unused) :
      TableStep D d (.alloc inode (allocInode dev inode d).1) (allocInode dev inode d).2
  | update (d : T) (k : Fin 256) (inode : Inode) (hdev : inode.device ∈ D) :
      TableStep D d (.update k inode (updateInode (inumOf k) inode d).1)
        (updateInode (inumOf k) inode d).2
  | read (d : T) {dev : UInt32} (hdev : dev ∈ D) (k : Fin 256) :
      TableStep D d (.read k (readInode dev (inumOf k) d).1) (readInode dev (inumOf k) d).2

/-- One call on an array. -/
inductive ArrayStep : InodeArray → TableEvent → InodeArray → Prop where
  | exhausted (a : InodeArray) (inode : Inode) (h : ∀ k, (a k).type_ ≠ .unused) :
      ArrayStep a (.alloc inode (.err .exhaustedInodes)) a
  | alloc (a : InodeArray) (inode : Inode) (k : Fin 256) (hk : (a k).type_ = .unused)
      (hleast : ∀ m, m < k → (a m).type_ ≠ .unused) :
      ArrayStep a (.alloc inode (.ok (inumOf k))) (Function.update a k inode)
  | update (a : InodeArray) (k : Fin 256) (inode : Inode) :
      ArrayStep a (.update k inode (.ok ())) (Function.update a k inode)
  | read (a : InodeArray) (k : Fin 256) : ArrayStep a (.read k (.ok (a k))) a

/-- What a call may do to the sectors. -/
def CallEffect (f g : Sectors) : TableEvent → Prop
  | .alloc _ (.ok k) => TableOnly f g ∧ ∀ b, b ≠ tableBlock k.toNat → g b = f b
  | .alloc _ _ => g = f
  | .update k _ _ => TableOnly f g ∧ ∀ b, b ≠ tableBlock k → g b = f b
  | .read _ _ => g = f

variable {D : Set UInt32} {dev : UInt32}

/-- **One call on the disk is one call on the array.** -/
theorem tableStep_arrayStep (hD : OneDisk T D) (hdev : dev ∈ D) {d d' : T} {a : InodeArray}
    {e : TableEvent} (ha : HoldsArray (sectors dev d) a) (h : TableStep D d e d') :
    ∃ a', ArrayStep a e a' ∧ HoldsArray (sectors dev d') a' ∧
      CallEffect (sectors dev d) (sectors dev d') e := by
  cases h with
  | alloc hdev' inode ht =>
    rename_i dev'
    have hview : sectors (T := T) dev' = sectors dev := hD dev' hdev' dev hdev
    obtain ⟨hnone, hsome⟩ := allocInode_table (T := T) dev'
      ha.inodeStart (fun k hk => ⟨_, ha.slots ⟨k, hk⟩⟩) ht
    cases hk : unusedSlots (sectors dev d) with
    | nil =>
      obtain ⟨ho, hf⟩ := hnone hk d (congrFun hview d)
      rw [hview] at hf
      rw [ho]
      refine ⟨a, .exhausted a inode (ha.unusedSlots_nil.mp hk), ?_, hf⟩
      rw [hf]
      exact ha
    | cons n rest =>
      obtain ⟨k, hkn, hku, hleast⟩ := ha.unusedSlots_cons hk
      obtain ⟨ho, hf⟩ := hsome n rest hk d (congrFun hview d)
      rw [hview, ← hkn] at hf
      rw [ho, ← hkn, hf]
      refine ⟨_, .alloc a inode k hku hleast, ha.store k inode, tableOnly_storeInode _ k inode, ?_⟩
      intro b hb
      rw [← inumOf, toNat_inumOf] at hb
      exact storeInode_other hb
  | update k inode hdev' =>
    have hview : sectors (T := T) inode.device = sectors dev := hD _ hdev' dev hdev
    have hcall : Gives (sectors (T := T) inode.device) (updateInode (inumOf k) inode)
        (sectors dev d) (.ok ()) (storeInode (sectors dev d) (inumOf k).toNat inode) :=
      updateInode_gives ha.inodeStart (by rw [toNat_inumOf]; exact k.isLt) rfl
    obtain ⟨ho, hf⟩ := hcall d (congrFun hview d)
    rw [hview, toNat_inumOf] at hf
    rw [ho, hf]
    exact ⟨_, .update a k inode, ha.store k inode, tableOnly_storeInode _ k inode,
      fun b hb => storeInode_other hb⟩
  | read hdev' k =>
    rename_i dev'
    have hview : sectors (T := T) dev' = sectors dev := hD dev' hdev' dev hdev
    have hslot : slot (sectors dev d) (inumOf k).toNat = some (a k) := by
      rw [toNat_inumOf]
      exact ha.slots k
    have hcall : Gives (sectors (T := T) dev') (readInode dev' (inumOf k)) (sectors dev d)
        (.ok (a k)) (sectors dev d) :=
      readInode_gives ha.inodeStart (by rw [toNat_inumOf]; exact k.isLt) hslot
    obtain ⟨ho, hf⟩ := hcall d (congrFun hview d)
    rw [hview] at hf
    rw [ho]
    refine ⟨a, .read a k, ?_, hf⟩
    rw [hf]
    exact ha

theorem CallEffect.tableOnly {f g : Sectors} {e : TableEvent} (h : CallEffect f g e) :
    TableOnly f g := by
  cases e with
  | alloc inode o =>
    cases o with
    | ok k => exact h.1
    | err x => exact fun b _ => congrFun h b
    | panic => exact fun b _ => congrFun h b
  | update k inode o => exact h.1
  | read k o => exact fun b _ => congrFun h b

/-- What `read_inode` decodes is the slot. -/
theorem slot_of_readInode {d : T} {k : Fin 256} {i : Inode}
    (hstart : (bufferToSb (sectors dev d 0).val).inodeStart = 1)
    (h : (readInode dev (inumOf k) d).1 = .ok i) : slot (sectors dev d) k = some i := by
  have hk : (inumOf k).toNat < 256 := by
    rw [toNat_inumOf]
    exact k.isLt
  rw [(readInode_at (T := T) hstart (Nat.le_of_lt hk) d rfl).1, toNat_inumOf] at h
  exact decoded_eq_ok h

/-- `alloc_inode` reports exhaustion exactly when no entry of the array is unused. -/
theorem allocInode_exhausted_iff {d : T} {a : InodeArray} (ha : HoldsArray (sectors dev d) a)
    {inode : Inode} (ht : inode.type_ ≠ .unused) :
    (allocInode dev inode d).1 = .err .exhaustedInodes ↔ ∀ k, (a k).type_ ≠ .unused := by
  obtain ⟨hnone, hsome⟩ := allocInode_table (T := T) dev ha.inodeStart
    (fun k hk => ⟨_, ha.slots ⟨k, hk⟩⟩) ht
  rw [← ha.unusedSlots_nil]
  constructor
  · intro h
    cases hk : unusedSlots (sectors dev d) with
    | nil => rfl
    | cons n rest =>
      rw [(hsome n rest hk d rfl).1] at h
      cases h
  · intro hk
    exact (hnone hk d rfl).1

/-- **The inode table is an array of 256 slots.** Start from a disk whose table begins at block 1
    and identify entry `k` with what `read_inode(k)` decodes. Every run of the three calls is a
    run of the array with the same results; the disk then holds the array's last value,
    `alloc_inode` is exhausted exactly when no entry is unused, the superblock and the data blocks
    are as they were, and every further call is a call on the array that changes at most the block
    of its own slot. -/
theorem inodeTable_refines_array (hD : OneDisk T D) (hdev : dev ∈ D) {d₀ d : T} {a₀ : InodeArray}
    {es : List TableEvent} (hstart : (bufferToSb (sectors dev d₀ 0).val).inodeStart = 1)
    (hslots : ∀ k, (readInode dev (inumOf k) d₀).1 = .ok (a₀ k))
    (hrun : Trace (TableStep D) d₀ es d) :
    ∃ a, Trace ArrayStep a₀ es a ∧ (∀ k, (readInode dev (inumOf k) d).1 = .ok (a k)) ∧
      (∀ inode : Inode, inode.type_ ≠ .unused →
        ((allocInode dev inode d).1 = .err .exhaustedInodes ↔ ∀ k, (a k).type_ ≠ .unused)) ∧
      TableOnly (sectors dev d₀) (sectors dev d) ∧
      ∀ e d', TableStep D d e d' → ∃ a', ArrayStep a e a' ∧
        (∀ k, (readInode dev (inumOf k) d').1 = .ok (a' k)) ∧
        CallEffect (sectors dev d) (sectors dev d') e := by
  have h0 : HoldsArray (sectors dev d₀) a₀ :=
    ⟨hstart, fun k => slot_of_readInode hstart (hslots k)⟩
  -- what the disk holds determines what `read_inode` returns
  have hread : ∀ {d : T} {a : InodeArray}, HoldsArray (sectors dev d) a →
      ∀ k, (readInode dev (inumOf k) d).1 = .ok (a k) := by
    intro d a ha k
    refine (readInode_gives (T := T) ha.inodeStart ?_ ?_ d rfl).1
    · rw [toNat_inumOf]
      exact k.isLt
    · rw [toNat_inumOf]
      exact ha.slots k
  obtain ⟨a, hrunA, ha, honly⟩ : ∃ a, Trace ArrayStep a₀ es a ∧
      (HoldsArray (sectors dev d) a ∧ TableOnly (sectors dev d₀) (sectors dev d)) := by
    refine Trace.simulate (R := fun (s : T) a =>
      HoldsArray (sectors dev s) a ∧ TableOnly (sectors dev d₀) (sectors dev s)) ?_
      ⟨h0, fun _ _ => rfl⟩ hrun
    intro s a e t hs hstep
    obtain ⟨a', h1, h2, h3⟩ := tableStep_arrayStep hD hdev hs.1 hstep
    exact ⟨a', h1, h2, hs.2.trans h3.tableOnly⟩
  refine ⟨a, hrunA, hread ha, fun inode ht => allocInode_exhausted_iff ha ht, honly, ?_⟩
  intro e d' hstep
  obtain ⟨a', h1, h2, h3⟩ := tableStep_arrayStep hD hdev ha hstep
  exact ⟨a', h1, hread h2, h3⟩

end Runs

theorem oneDisk_singleton (T : Type) [Disk T] [FaultFree T] (dev : UInt32) : OneDisk T {dev} := by
  intro a ha b hb
  rw [Set.mem_singleton_iff.mp ha, Set.mem_singleton_iff.mp hb]

theorem oneBlockDisk_slot (dev : UInt32) (k : Fin 256) :
    slot (sectors dev oneBlockDisk) k = some unusedInode := by
  have hz : sectors dev oneBlockDisk (tableBlock k) = Sector.zero := by
    show Function.update (fun _ => Sector.zero) 0 oneBlockSb (tableBlock k) = Sector.zero
    rw [Function.update_of_ne (isTable_tableBlock k.isLt).ne_zero]
  rw [slot, hz]
  decide +kernel

/-- On a disk with an empty table: an allocation, then reading the slot it took. -/
theorem inodeTable_refines_array_oneBlock :
    ∃ a, Trace ArrayStep (fun _ => unusedInode)
        [.alloc (freshInode .file 1) (allocInode 1 (freshInode .file 1) oneBlockDisk).1,
          .read 0 (readInode 1 (inumOf 0) (allocInode 1 (freshInode .file 1) oneBlockDisk).2).1]
        a ∧
      TableOnly (sectors 1 oneBlockDisk) (sectors 1
        (readInode 1 (inumOf 0) (allocInode 1 (freshInode .file 1) oneBlockDisk).2).2) := by
  have hstart := (oneBlockDisk_wellFormed 1).inodeStart
  have hslots : ∀ k, (readInode 1 (inumOf k) oneBlockDisk).1 = .ok unusedInode := by
    intro k
    refine (readInode_gives hstart ?_ ?_ oneBlockDisk rfl).1
    · rw [toNat_inumOf]
      exact k.isLt
    · rw [toNat_inumOf]
      exact oneBlockDisk_slot 1 k
  have hmem : (1 : UInt32) ∈ ({1} : Set UInt32) := rfl
  have halloc := TableStep.alloc oneBlockDisk hmem _ (freshInode_file_used 1)
  have hrun := (Trace.single halloc).snoc (TableStep.read _ hmem 0)
  obtain ⟨a, ha, _, _, honly, _⟩ := inodeTable_refines_array (oneDisk_singleton MemDisk 1) hmem
    hstart hslots hrun
  exact ⟨a, ha, honly⟩

end Sprocket.SimpleFs
