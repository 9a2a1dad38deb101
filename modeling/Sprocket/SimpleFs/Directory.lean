/-
  File:      Sprocket/SimpleFs/Directory.lean
  Subject:   DIRECTORIES: what `dir_add` stores in a slot and what `dir_lookup` finds.

  A directory is a file of 260-byte entries. A block has 512 bytes, so slot `k`, at offset
  `260 * k`, may straddle two blocks; `write` and `read` of an entry both end with the first of
  the two. What a slot keeps is therefore the inode number and the first `nameRoom k` bytes of the
  name, `nameRoom k = 508 - 260 * k % 512`; the rest of the name is lost.

  `DirRep f i st es` ties the directory to the list `es` of the entries its slots hold, names as
  they were KEPT. On it the two calls are those of a list of entries:

  * `dirLookup_gives` -- the first slot whose kept name is the name asked for;
  * `dirAdd_exists`, `dirAdd_append`, `dirAdd_refused` -- the three ways `dir_add` ends: the name
    is found and nothing happens, the entry is appended, cut to its slot, or there is no room for
    it and nothing happens.
-/
import Sprocket.SimpleFs.Files

namespace Sprocket.SimpleFs

open Bytes Prog

/-! ## 1. The bytes of an entry -/

/-- A directory entry: a name and an inode number. -/
structure Entry where
  name : List UInt8
  target : UInt32
  deriving DecidableEq, Repr

/-- A name that fits an entry and has no NUL byte, and a target that marks no empty slot. -/
structure Entry.Legal (e : Entry) : Prop where
  length : e.name.length ≤ dirnameSize
  noNul : 0 ∉ e.name
  target : e.target ≠ unusedInum

/-- An entry, byte by byte. -/
theorem getElem?_direntBytes {t : UInt32} {name : List UInt8} (h : name.length ≤ 254) (q : Nat) :
    (direntBytes t name)[q]? = if q < 4 then (le32 t)[q]?
      else if q < 4 + name.length then name[q - 4]? else if q < 260 then some 0 else none := by
  unfold direntBytes
  rw [List.getElem?_append, length_le32]
  by_cases h4 : q < 4
  · rw [if_pos h4, if_pos h4]
  · rw [if_neg h4, if_neg h4, List.append_assoc, List.getElem?_append]
    by_cases hn : q < 4 + name.length
    · rw [if_pos (by omega), if_pos hn]
    · rw [if_neg (by omega), if_neg hn]
      have hzero : List.replicate (dirnameSize - name.length) (0 : UInt8) ++ [0, 0] =
          List.replicate (256 - name.length) 0 := by
        have e : 256 - name.length = (dirnameSize - name.length) + 2 := by
          simp only [dirnameSize]
          omega
        rw [e, List.replicate_add]
        rfl
      rw [hzero, List.getElem?_replicate]
      by_cases hq : q < 260
      · rw [if_pos (by omega), if_pos hq]
      · rw [if_neg (by omega), if_neg hq]

theorem entryInumber_direntBytes (t : UInt32) (name : List UInt8) :
    entryInumber (direntBytes t name) = t := by
  rw [entryInumber, u32At, direntBytes, slice, List.drop_zero, List.take_left' (length_le32 t),
    u32_leNat_le32]

theorem entryName_direntBytes (t : UInt32) {name : List UInt8} (h : name.length ≤ 254) :
    entryName (direntBytes t name) = name ++ List.replicate (254 - name.length) 0 := by
  rw [entryName, direntBytes, slice_append (length_le32 t).symm]
  refine List.take_left' ?_
  simp only [List.length_append, List.length_replicate, dirnameSize]
  omega

/-- The length of a kept name is the position of the first NUL. -/
theorem findIdx_nul {name : List UInt8} (n : Nat) (h : 0 ∉ name) :
    (name ++ List.replicate n 0).findIdx (· == (0 : UInt8)) = name.length := by
  rw [List.findIdx_append, List.findIdx_eq_length_of_false]
  · rw [if_neg (Nat.lt_irrefl _)]
    cases n with
    | zero => simp
    | succ n => simp [List.replicate_succ, List.findIdx_cons]
  · intro x hx
    have hne : x ≠ 0 := fun e => h (e ▸ hx)
    simpa using hne

theorem zip_all_eq : ∀ (a b : List UInt8), a.length = b.length →
    ((a.zip b).all fun p => p.1 == p.2) = decide (a = b)
  | [], [], _ => rfl
  | x :: a, y :: b, h => by
      rw [List.zip_cons_cons, List.all_cons, zip_all_eq a b (by simpa using h)]
      simp [Bool.decide_and]
      rfl

/-- **An entry matches its own name and no other.** -/
theorem nameMatches_direntBytes {e : Entry} (h : e.Legal) (name : List UInt8) :
    nameMatches (direntBytes e.target e.name) name = decide (e.name = name) := by
  have hlen : e.name.length ≤ 254 := h.length
  unfold nameMatches
  rw [entryName_direntBytes _ hlen]
  dsimp only
  rw [findIdx_nul _ h.noNul, List.take_left]
  by_cases hl : e.name.length = name.length
  · rw [zip_all_eq _ _ hl, hl]
    simp
  · have hne : e.name ≠ name := fun he => hl (by rw [he])
    simp [hl, hne]

/-! ## 2. Slots -/

/-- The offset of slot `k` is a 32-bit number. -/
theorem toNat_slot {k : Nat} (h : 260 * k ≤ 32768) : (UInt32.ofNat (260 * k)).toNat = 260 * k :=
  UInt32.toNat_ofNat_of_lt' (by simp only [UInt32.size]; omega)

/-- The bytes of the name slot `k` keeps. -/
def nameRoom (k : Nat) : Nat := 508 - 260 * k % 512

/-- The entry as slot `k` keeps it. -/
def Entry.cut (e : Entry) (k : Nat) : Entry := { e with name := e.name.take (nameRoom k) }

theorem Entry.Legal.cut {e : Entry} (h : e.Legal) (k : Nat) : (e.cut k).Legal where
  length := Nat.le_trans (List.length_take_le' _ _) h.length
  noNul hm := h.noNul (List.mem_of_mem_take hm)
  target := h.target

/-- Slot `k` of the directory holds `e`: in the part of it that lies in its first block. -/
structure SlotHolds (f : Sectors) (i : Inode) (k : Nat) (e : Entry) : Prop where
  legal : e.Legal
  fits : e.name.length ≤ nameRoom k
  mapped : i.Maps (260 * k / 512)
  bytes : ∀ q, q < 260 → 260 * k % 512 + q < 512 →
    fileByte f i (260 * k + q) = (direntBytes e.target e.name)[q]?

/-- **The directory holds the entries `es`**, one in each slot, in order. -/
structure DirRep (dev : UInt32) (f : Sectors) (i : Inode) (st : List UInt32) (es : List Entry) :
    Prop where
  own : Own f i st
  type_ : i.type_ = .directory
  device : i.device = dev
  size : i.size.toNat = 260 * es.length
  room : 260 * es.length ≤ 32768
  slots : ∀ k e, es[k]? = some e → SlotHolds f i k e

section Calls

variable {T : Type} [Disk T] [FaultFree T] {dev : UInt32} {f : Sectors} {i : Inode}
  {st : List UInt32} {es : List Entry}

/-- **Reading a slot gives the entry it holds.** The part of the buffer the read does not reach
    keeps its zeros, and the entry has only zeros there. -/
theorem DirRep.readSlot (h : DirRep dev f i st es) {k : Nat} {e : Entry} (hk : es[k]? = some e) :
    Gives (sectors (T := T) dev) (readInto i (List.replicate direntSize 0) (UInt32.ofNat (260 * k)))
      f (.ok (260, direntBytes e.target e.name)) f := by
  have hs := h.slots k e hk
  have hlt : k < es.length := (List.getElem?_eq_some_iff.mp hk).1
  have hsize := h.size
  have hroom := h.room
  have hoff := toNat_slot (show 260 * k ≤ 32768 by omega)
  have hbuf : (List.replicate direntSize (0 : UInt8)).length = 260 := List.length_replicate
  obtain ⟨out, hout, hfill⟩ := readBytes_first (T := T) f (260 * k) 260 h.device hs.mapped
    (by omega)
    (Nat.le_of_eq hbuf.symm) (by omega)
  have hlen : e.name.length ≤ 254 := hs.legal.length
  have hfits := hs.fits
  unfold nameRoom at hfits
  have hdirent : out = direntBytes e.target e.name := List.ext_getElem? fun q => by
    rw [hfill.bytes q, firstRead]
    by_cases hq : q < min 260 (512 - 260 * k % 512)
    · rw [if_pos ⟨Nat.zero_le q, hq⟩, Nat.sub_zero, hs.bytes q (by omega) (by omega)]
    · rw [if_neg (by omega), List.getElem?_replicate, getElem?_direntBytes hlen,
        if_neg (show ¬ q < 4 by omega), if_neg (show ¬ q < 4 + e.name.length by omega)]
  rw [hdirent] at hout
  refine (read_gives (by rw [h.type_]; decide) (by omega)
    (by rw [hoff, hbuf]; omega) ?_).withLocal_ok
  rw [hoff, hbuf, Nat.min_eq_left (by omega)]
  exact hout

theorem slotOffsets_eq (n : Nat) :
    slotOffsets (260 * n) = (List.range n).map (260 * ·) := by
  have e : (260 * n + direntSize - 1) / direntSize = n := by
    simp only [direntSize]
    omega
  rw [slotOffsets, e]

/-- The first entry with the name, and the offset of its slot, counting slots from `k`. -/
def findEntry (name : List UInt8) : Nat → List Entry → Option (UInt32 × Nat)
  | _, [] => none
  | k, e :: es => if e.name = name then some (e.target, 260 * k) else findEntry name (k + 1) es

/-- The outcome of a lookup. -/
def lookupOutcome : Option (UInt32 × Nat) → Outcome FsError (UInt32 × Nat)
  | some r => .ok r
  | none => .err .notFound

/-- The scan from slot `k` on. -/
theorem DirRep.lookupIn (h : DirRep dev f i st es) (name : List UInt8) :
    ∀ (rest : List Entry) (k : Nat),
    es.drop k = rest →
    Gives (sectors (T := T) dev) (dirLookupIn i name ((List.range' k rest.length).map (260 * ·))) f
      (lookupOutcome (findEntry name k rest)) f
  | [], _, _ => gives_fail _
  | e :: rest, k, hrest => by
      have hk : es[k]? = some e := by
        rw [← Nat.add_zero k, ← List.getElem?_drop, hrest]
        rfl
      have hlegal := (h.slots k e hk).legal
      have hnext : es.drop (k + 1) = rest := by
        rw [← List.drop_drop, hrest]
        rfl
      rw [List.length_cons, List.range'_succ, List.map_cons, dirLookupIn]
      refine (h.readSlot hk).then ?_
      rw [entryInumber_direntBytes, if_neg hlegal.target, nameMatches_direntBytes hlegal, findEntry]
      by_cases hn : e.name = name
      · rw [if_pos (decide_eq_true hn), if_pos hn]
        exact gives_pure _
      · rw [if_neg (by simpa using hn), if_neg hn]
        exact h.lookupIn name rest (k + 1) hnext

/-- **`dir_lookup` finds the first slot that holds the name.** -/
theorem dirLookup_gives (h : DirRep dev f i st es) (name : List UInt8) :
    Gives (sectors (T := T) dev) (dirLookup i name) f (lookupOutcome (findEntry name 0 es)) f := by
  unfold dirLookup
  refine (gives_require h.type_).then ?_
  rw [h.size, slotOffsets_eq, List.range_eq_range']
  exact h.lookupIn name es 0 rfl

/-- No slot is empty, so `dir_add` appends. -/
theorem DirRep.place (h : DirRep dev f i st es) (bytes : List UInt8) {o : Outcome FsError Unit}
    {w : Sectors × Inode}
    (hw : Gives (fileView (T := T) dev) (do let _ ← write bytes i.size; pure ()) (f, i) o w) :
    ∀ (rest : List Entry) (k : Nat), es.drop k = rest →
      Gives (fileView (T := T) dev) (dirPlace bytes ((List.range' k rest.length).map (260 * ·)))
        (f, i) o w
  | [], _, _ => by
      show Gives (fileView dev) (dirPlace bytes []) (f, i) o w
      rw [dirPlace]
      exact gives_theInode.then hw
  | e :: rest, k, hrest => by
      have hk : es[k]? = some e := by
        rw [← Nat.add_zero k, ← List.getElem?_drop, hrest]
        rfl
      have hnext : es.drop (k + 1) = rest := by
        rw [← List.drop_drop, hrest]
        rfl
      rw [List.length_cons, List.range'_succ, List.map_cons, dirPlace]
      refine gives_theInode.then ((h.readSlot hk).onFst.then ((gives_require rfl).then ?_))
      rw [entryInumber_direntBytes, if_neg (h.slots k e hk).legal.target]
      exact h.place bytes hw rest (k + 1) hnext

/-- **The name is found: `dir_add` returns `EntryExists` and changes nothing.** -/
theorem dirAdd_exists (h : DirRep dev f i st es) {e : Entry} {r : UInt32 × Nat}
    (hfound : findEntry e.name 0 es = some r) :
    Gives (fileView (T := T) dev) (dirAdd e.name e.target) (f, i) (.err .entryExists) (f, i) := by
  have hl : Gives (sectors (T := T) dev) (dirLookup i e.name) f (.ok r) f := by
    have hl := dirLookup_gives (T := T) h e.name
    rwa [hfound] at hl
  unfold dirAdd
  exact gives_theInode.then (hl.attempt_ok.onFst.then (gives_fail _))

/-- The name is not found: `dir_add` writes the entry behind the last slot. -/
theorem dirAdd_new (h : DirRep dev f i st es) {e : Entry} (he : e.Legal)
    (hnew : findEntry e.name 0 es = none) {o : Outcome FsError Unit} {w : Sectors × Inode}
    (hw : Gives (fileView (T := T) dev)
      (do let _ ← write (direntBytes e.target e.name) i.size; pure ()) (f, i) o w) :
    Gives (fileView (T := T) dev) (dirAdd e.name e.target) (f, i) o w := by
  have hl : Gives (sectors (T := T) dev) (dirLookup i e.name) f (.err .notFound) f := by
    have hl := dirLookup_gives (T := T) h e.name
    rwa [hnew] at hl
  unfold dirAdd
  refine gives_theInode.then (hl.attempt_err.onFst.then ((gives_require he.length).then ?_))
  rw [h.size, slotOffsets_eq, List.range_eq_range']
  exact h.place _ hw es 0 rfl

/-- Cutting the name to its slot does not show in the part of the slot that is stored. -/
theorem direntBytes_cut {e : Entry} (he : e.Legal) {k q : Nat} (hq : q < 260)
    (hfit : 260 * k % 512 + q < 512) :
    (direntBytes e.target e.name)[q]? = (direntBytes (e.cut k).target (e.cut k).name)[q]? := by
  have hlen : e.name.length ≤ 254 := he.length
  have hcut : (e.cut k).name = e.name.take (508 - 260 * k % 512) := rfl
  have hlen' : (e.cut k).name.length = min (508 - 260 * k % 512) e.name.length := by
    rw [hcut, List.length_take]
  rw [getElem?_direntBytes hlen, getElem?_direntBytes (by omega), hlen']
  by_cases h4 : q < 4
  · rw [if_pos h4, if_pos h4]
    rfl
  · rw [if_neg h4, if_neg h4]
    by_cases hn : q < 4 + e.name.length
    · rw [if_pos hn, if_pos (by omega), hcut, List.getElem?_take, if_pos (by omega)]
    · rw [if_neg hn, if_neg (show ¬ q < 4 + min (508 - 260 * k % 512) e.name.length by omega)]

/-- A slot before the one that is written keeps its entry. -/
theorem SlotHolds.other {g : Sectors} {j : Inode} {st' : List UInt32} {k n : Nat} {e : Entry}
    {src : List UInt8} (h : SlotHolds f i k e) (hk : k < n)
    (hw : Wrote f i st (260 * n / 512) ((blockOf f i (260 * n / 512)).patch (260 * n) src)
      g j st') :
    SlotHolds g j k e := by
  obtain ⟨b, hb, h0⟩ := h.mapped
  refine ⟨h.legal, h.fits, ⟨b, hw.grew.kept _ b hb h0, h0⟩, fun q hq hfit => ?_⟩
  rw [← h.bytes q hq hfit]
  by_cases hblock : (260 * k + q) / 512 = 260 * n / 512
  · -- in the same block, but below the bytes that are written
    have hdiv : 260 * k / 512 = 260 * n / 512 := by omega
    have hb' : i.blocks[(260 * k + q) / 512]? = some b := by
      rw [hblock, ← hdiv]
      exact hb
    rw [hw.here _ hblock, Sector.getElem?_patch _ _ _ (by omega), if_neg (by omega),
      fileByte_mapped hb' h0, blockOf, ← hdiv, hb]
    exact congrArg (fun x : Sector => x.val[(260 * k + q) % 512]?) (if_neg h0)
  · exact hw.elsewhere _ hblock

/-- **The name is new and there is room: `dir_add` appends the entry**, cut to its slot. -/
theorem dirAdd_append (h : DirRep dev f i st es) {e : Entry} (he : e.Legal)
    (hnew : findEntry e.name 0 es = none) (hroom : 260 * (es.length + 1) ≤ 32768)
    (hfree : toMap i (260 * es.length / 512) ≤ st.length) :
    ∃ g j st', Gives (fileView (T := T) dev) (dirAdd e.name e.target) (f, i) (.ok ()) (g, j) ∧
      DirRep dev g j st' (es ++ [e.cut es.length]) ∧ Grew f i st g j st' ∧
      st.length = st'.length + toMap i (260 * es.length / 512) := by
  have hsize := h.size
  have hlen : (direntBytes e.target e.name).length = 260 := length_direntBytes _ he.length
  have hfw : 260 ≤ firstWritten (direntBytes e.target e.name) (260 * es.length) := by
    unfold firstWritten
    rw [hlen]
    split <;> omega
  obtain ⟨g, j, st', hg, hw⟩ := writeBytes_first (T := T) h.own h.device
    (direntBytes e.target e.name) (260 * es.length) (by omega) (by omega) (by omega)
    hfree (by omega)
  rw [if_pos (by omega), hsize, hlen] at hg
  obtain ⟨hown, hgrew⟩ := hw.own.resize (UInt32.ofNat (260 * es.length + 260))
  refine ⟨g, _, st', ?_, ⟨hown, ?_, ?_, ?_, ?_, ?_⟩, hw.grew.trans hgrew, hw.cost⟩
  · have hg' : Gives (fileView (T := T) dev)
        (writeBytes (direntBytes e.target e.name) i.size.toNat) (f, i) (.ok 260)
        (g, { j with size := UInt32.ofNat (260 * es.length + 260) }) := by
      rw [hsize]
      exact hg
    have hwrite := write_gives (by rw [h.type_]; decide) (Nat.le_refl _) (by omega) hg'
    exact dirAdd_new h he hnew (hwrite.then (gives_pure ()))
  · exact hw.grew.type_.trans h.type_
  · exact hw.grew.device.trans h.device
  · rw [List.length_append, List.length_singleton]
    show (UInt32.ofNat (260 * es.length + 260)).toNat = _
    rw [UInt32.toNat_ofNat']
    omega
  · rw [List.length_append, List.length_singleton]
    exact hroom
  · intro k e' hk
    rw [List.getElem?_append] at hk
    split at hk
    · have hs := (h.slots k e' hk).other ‹_› hw
      exact ⟨hs.legal, hs.fits, hs.mapped, hs.bytes⟩
    · have hk0 : k = es.length := by
        have := (List.getElem?_eq_some_iff.mp hk).1
        simp at this
        omega
      subst hk0
      rw [Nat.sub_self] at hk
      obtain rfl := Option.some.inj hk
      refine ⟨he.cut _, List.length_take_le _ _, hw.mapped, fun q hq hfit => ?_⟩
      rw [← direntBytes_cut he hq hfit]
      refine (hw.here _ (by omega)).trans ?_
      rw [Sector.getElem?_patch _ _ _ (by omega), hlen, if_pos (by omega)]
      congr 1
      omega

/-- **There is no room: `dir_add` fails and changes nothing.** -/
theorem dirAdd_refused (h : DirRep dev f i st es) {e : Entry} (he : e.Legal)
    (hnew : findEntry e.name 0 es = none)
    (hfull : 32768 < 260 * (es.length + 1) ∨ st.length < toMap i (260 * es.length / 512)) :
    ∃ err, Gives (fileView (T := T) dev) (dirAdd e.name e.target) (f, i) (.err err) (f, i) := by
  have hsize := h.size
  have hroom := h.room
  have hlen : (direntBytes e.target e.name).length = 260 := length_direntBytes _ he.length
  by_cases hlarge : 32768 < 260 * (es.length + 1)
  · refine ⟨.writeTooLarge, dirAdd_new h he hnew (Gives.then_err ?_)⟩
    exact write_tooLarge (by rw [h.type_]; decide) (by omega) (by omega)
  · refine ⟨.exhaustedBlocks, dirAdd_new h he hnew (Gives.then_err ?_)⟩
    refine write_gives (by rw [h.type_]; decide) (Nat.le_refl _) (by omega) ?_
    rw [hsize]
    have hmap : toMap i (260 * es.length / 512) ≤ 1 := toMap_le i _
    have hst : st = [] := List.eq_nil_of_length_eq_zero (by omega)
    have hb : i.blocks[260 * es.length / 512]? = some 0 := by
      by_contra hne
      have h0 : toMap i (260 * es.length / 512) = 0 := if_neg hne
      omega
    unfold writeBytes
    exact Gives.then_err (bmapOrAlloc_exhausted hb h.device (hst ▸ h.own.freelist))

end Calls

end Sprocket.SimpleFs
