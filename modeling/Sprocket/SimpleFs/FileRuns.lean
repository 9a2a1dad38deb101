/-
  File:      Sprocket/SimpleFs/FileRuns.lean
  Subject:   FILE CREATION ROUND TRIP: every file stored on a disk is read back.

  `write_file` of `simple_fs/src/bin.rs` allocates an inode, writes the bytes at offset 0, updates
  the inode, and then reads everything back, byte by byte. `storeFile` is the first half,
  `verifyFile` the second. `OnDisk f dev st inum bytes i` says that slot `inum` of the inode table
  holds an inode whose blocks hold `bytes`, none of them free: a later file takes its blocks
  from the freelist and its slot from the unused ones, so it leaves this one alone.

  * `storeFile_gives` -- one file: it is on the disk, and so are the files that were;
  * `OnDisk.readAll`, `OnDisk.readByte`, `OnDisk.verify` -- a file on the disk is read back;
  * `storeFiles_roundTrip` -- any number of files, all of them read back at the end.
-/
import Mathlib.Data.List.Forall2
import Sprocket.SimpleFs.Files
import Sprocket.SimpleFs.InodeTable

namespace Sprocket.SimpleFs

open Bytes Prog

/-! ## 1. The code of `write_file` -/

section Code

variable {T : Type} [Disk T]

/-- The calls by which `write_file` stores a file. -/
def storeFile (dev : UInt32) (bytes : List UInt8) : Prog T FsError UInt32 := do
  let inum ← allocInode dev (freshInode .file dev)
  let r ← withLocal (freshInode .file dev) (write bytes 0)
  let _ ← updateInode inum r.2
  pure inum

def storeFiles (dev : UInt32) : List (List UInt8) → Prog T FsError (List UInt32)
  | [] => pure []
  | bytes :: rest => do
    let inum ← storeFile dev bytes
    let inums ← storeFiles dev rest
    pure (inum :: inums)

/-- The comparison loop of `write_file`, from byte `i` on. -/
def verifyFrom (inode : Inode) : Nat → List UInt8 → Prog T FsError Unit
  | _, [] => pure ()
  | i, b :: rest => do
    let r ← unwrap (readInto inode [0] (UInt32.ofNat i))
    require (r.2[0]? = some b)
    verifyFrom inode (i + 1) rest

/-- What `write_file` checks after storing a file. -/
def verifyFile (dev inum : UInt32) (buf : List UInt8) : Prog T FsError Unit := do
  let newInode ← unwrap (readInode dev inum)
  -- `buf2` is a vector with room for the file but no elements: this reads no byte
  let _ ← unwrap (readInto newInode [] 0)
  require (buf.length = newInode.size.toNat)
  verifyFrom newInode 0 buf

end Code

/-- The number of blocks a new file takes: one for each 512 bytes begun, and at least one. -/
def blocksFor (bytes : List UInt8) : Nat := max 1 ((bytes.length + 511) / 512)

/-! ## 2. A file on the disk -/

/-- **Slot `inum` holds the file `bytes`**, in blocks that are not free. -/
structure OnDisk (f : Sectors) (dev : UInt32) (st : List UInt32) (inum : UInt32)
    (bytes : List UInt8) (i : Inode) : Prop where
  lt : inum.toNat < 256
  slot : slot f inum.toNat = some i
  type_ : i.type_ = .file
  device : i.device = dev
  max : bytes.length ≤ 32768
  size : i.size.toNat = bytes.length
  stored : ∀ p, p < bytes.length → fileByte f i p = bytes[p]?
  mapped : ∀ m, m = 0 ∨ 512 * m < bytes.length → i.Maps m
  data : ∀ (n : Nat) b, i.blocks[n]? = some b → b ≠ 0 → IsData b
  used : ∀ (n : Nat) b, i.blocks[n]? = some b → b ≠ 0 → b ∉ st

/-- A file stays on the disk when its slot and its blocks are left alone. -/
theorem OnDisk.frame {f g : Sectors} {dev : UInt32} {st st' : List UInt32} {inum : UInt32}
    {bytes : List UInt8} {i : Inode} (h : OnDisk f dev st inum bytes i)
    (hslot : SimpleFs.slot g inum.toNat = SimpleFs.slot f inum.toNat)
    (hblocks : ∀ (n : Nat) b, i.blocks[n]? = some b → b ≠ 0 → g b = f b) (hst : st' <:+ st) :
    OnDisk g dev st' inum bytes i :=
  { h with
    slot := hslot.trans h.slot
    stored := fun p hp => by
      rw [fileByte_congr rfl fun b hb h0 => hblocks _ b hb h0]
      exact h.stored p hp
    used := fun n b hb h0 hm => h.used n b hb h0 (hst.subset hm) }

section Storing

variable {T : Type} [Disk T] [FaultFree T] (dev : UInt32)

/-- The write of `storeFile`: a fresh inode, the whole file. -/
theorem write_fresh {f : Sectors} {st : List UInt32} (hwf : WellFormed f st) {bytes : List UInt8}
    (hlen : bytes.length ≤ 32768) (hfree : blocksFor bytes ≤ st.length) :
    ∃ g j st', Gives (fileView (T := T) dev) (write bytes 0) (f, freshInode .file dev)
        (.ok bytes.length) (g, j) ∧ Stored f (freshInode .file dev) st bytes g j st' := by
  have hneed := needed_le (freshInode .file dev) 512 bytes.length
  have hone := toMap_le (freshInode .file dev) 0
  unfold blocksFor at hfree
  obtain ⟨g, j, st', hg, hs⟩ := writeBytes_start (T := T) (hwf.own_fresh .file dev) rfl rfl hlen
    (by omega)
  exact ⟨g, j, st', write_gives (freshInode_file_used dev) (Nat.zero_le _) (by simpa using hlen) hg,
    hs⟩

/-- Writing an inode of the same type to its slot again leaves the unused slots as they are. -/
theorem unusedSlots_restore {f g : Sectors} {k : Nat} {i j : Inode} (hk : k < 256)
    (htable : ∀ m, m < 256 → slot g m = slot (storeInode f k i) m) (htype : j.type_ = i.type_) :
    unusedSlots (storeInode g k j) = unusedSlots (storeInode f k i) := by
  refine unusedSlots_congr fun m hm => ?_
  by_cases e : m = k
  · subst e
    rw [isUnused_eq (slot_storeInode_self g m j), htype, isUnused_eq (slot_storeInode_self f m i)]
  · rw [isUnused, slot_storeInode_other hk hm e, htable m hm, isUnused]

/-- **Storing one file.** The file is on the disk, and every file that was on the disk still
    is. -/
theorem storeFile_gives {f : Sectors} {st : List UInt32} (hwf : WellFormed f st)
    {bytes : List UInt8} (hlen : bytes.length ≤ 32768) {k : Nat} {rest : List Nat}
    (hk : unusedSlots f = k :: rest) (hfree : blocksFor bytes ≤ st.length) :
    ∃ g st' j, Gives (sectors (T := T) dev) (storeFile dev bytes) f (.ok (UInt32.ofNat k)) g ∧
      WellFormed g st' ∧ unusedSlots g = rest ∧ st.length ≤ st'.length + blocksFor bytes ∧
      OnDisk g dev st' (UInt32.ofNat k) bytes j ∧
      ∀ inum bytes' i, OnDisk f dev st inum bytes' i → OnDisk g dev st' inum bytes' i := by
  obtain ⟨hk256, hunused⟩ := unusedSlots_head hk
  have hkn : (UInt32.ofNat k).toNat = k := by
    rw [UInt32.toNat_ofNat']
    omega
  have hwf1 := hwf.storeInode hk256 (freshInode .file dev)
  obtain ⟨g, j, st', hg, hs⟩ := write_fresh (T := T) dev hwf1 hlen hfree
  have hwf2 : WellFormed g st' := hwf1.grew (hwf1.own_fresh .file dev) hs.own hs.grew
  have htype : j.type_ = .file := hs.grew.type_
  have hdev : j.device = dev := hs.grew.device
  have htable : ∀ m, m < 256 → slot g m = slot (storeInode f k (freshInode .file dev)) m :=
    fun m hm => by
      rw [slot, hs.grew.table (hwf1.own_fresh .file dev) (isTable_tableBlock hm), slot]
  -- a data block that is not free is left alone by all three calls
  have hdata : ∀ b, IsData b → b ∉ st → storeInode g k j b = f b := by
    intro b hb hst
    rw [storeInode_data hk256 hb, hs.grew.untouched b hb.ne_zero hst
      fun n hn => hb.ne_zero (freshInode_blocks hn), storeInode_data hk256 hb]
  refine ⟨storeInode g k j, st', j, ?_, hwf2.storeInode hk256 j, ?_, ?_, ?_, ?_⟩
  · unfold storeFile
    refine (allocInode_gives hwf (freshInode_file_used dev) hk).then (hg.withLocal_ok.then ?_)
    refine (updateInode_gives hwf2.inodeStart (by omega) hdev).then ?_
    rw [hkn]
    exact gives_pure _
  · rw [unusedSlots_restore hk256 htable hs.grew.type_]
    exact unusedSlots_storeInode hk (freshInode_file_used dev)
  · have hneed := needed_le (freshInode .file dev) 512 bytes.length
    have hone := toMap_le (freshInode .file dev) 0
    have hcost := hs.cost
    unfold blocksFor
    omega
  · refine ⟨by omega, ?_, htype, hdev, hlen, hs.size, ?_, hs.mapped, hs.own.data, hs.own.used⟩
    · rw [hkn]
      exact slot_storeInode_self g k j
    · intro p hp
      rw [fileByte_congr rfl fun b hb h0 => storeInode_data hk256 (hs.own.data _ b hb h0)]
      exact hs.stored p hp
  · intro inum bytes' i h
    have hne : inum.toNat ≠ k := by
      intro e
      have hfile := isUnused_eq h.slot
      rw [e, hunused, h.type_] at hfile
      cases hfile
    refine h.frame ?_ (fun n b hb h0 => hdata b (h.data n b hb h0) (h.used n b hb h0))
      hs.grew.suffix
    rw [slot_storeInode_other hk256 h.lt hne, htable _ h.lt, slot_storeInode_other hk256 h.lt hne]

/-- **Storing a sequence of files**: at the end all of them are on the disk. -/
theorem storeFiles_gives : ∀ (files : List (List UInt8)) {f : Sectors} {st : List UInt32},
    WellFormed f st → (∀ bytes ∈ files, bytes.length ≤ 32768) →
    files.length ≤ (unusedSlots f).length → (files.map blocksFor).sum ≤ st.length →
    ∃ inums g st', Gives (sectors (T := T) dev) (storeFiles dev files) f (.ok inums) g ∧
      WellFormed g st' ∧
      List.Forall₂ (fun inum bytes => ∃ i, OnDisk g dev st' inum bytes i) inums files ∧
      ∀ inum bytes i, OnDisk f dev st inum bytes i → OnDisk g dev st' inum bytes i
  | [], f, st, hwf, _, _, _ => ⟨[], f, st, gives_pure [], hwf, .nil, fun _ _ _ h => h⟩
  | bytes :: files, f, st, hwf, hlen, hslots, hblocks => by
      rw [List.map_cons, List.sum_cons] at hblocks
      rw [List.length_cons] at hslots
      obtain ⟨k, rest, hk⟩ : ∃ k rest, unusedSlots f = k :: rest :=
        List.exists_cons_of_length_pos (by omega)
      rw [hk, List.length_cons] at hslots
      obtain ⟨g, st', j, hg, hwf', hrest, hcost, hfile, hkeep⟩ := storeFile_gives (T := T) dev hwf
        (hlen bytes List.mem_cons_self) hk (by omega)
      obtain ⟨inums, g', st'', hg', hwf'', hfiles, hkeep'⟩ := storeFiles_gives files hwf'
        (fun b hb => hlen b (List.mem_cons_of_mem bytes hb)) (by rw [hrest]; omega) (by omega)
      refine ⟨UInt32.ofNat k :: inums, g', st'', ?_, hwf'', ?_, ?_⟩
      · rw [storeFiles]
        exact hg.then (hg'.then (gives_pure _))
      · exact .cons ⟨j, hkeep' _ _ _ hfile⟩ hfiles
      · intro inum b i h
        exact hkeep' _ _ _ (hkeep _ _ _ h)

end Storing

/-! ## 3. Reading a file back -/

section Reading

variable {T : Type} [Disk T] [FaultFree T] {dev : UInt32} {f : Sectors} {st : List UInt32}
  {inum : UInt32} {bytes : List UInt8} {i : Inode}

/-- A read at offset 0 with a buffer of the file's length returns the file. -/
theorem OnDisk.readAll (h : OnDisk f dev st inum bytes i) {buf : List UInt8}
    (hbuf : buf.length = bytes.length) :
    Gives (sectors (T := T) dev) (readInto i buf 0) f (.ok (bytes.length, bytes)) f := by
  have hmax := h.max
  obtain ⟨out, hout, hfill⟩ := readBytes_start (T := T) f h.device
    (Nat.le_of_eq hbuf.symm) hmax h.mapped
  have e : out = bytes := List.ext_getElem? fun t => by
    rw [hfill.bytes t]
    by_cases ht : t < bytes.length
    · rw [if_pos ⟨Nat.zero_le t, ht⟩, Nat.zero_add, Nat.sub_zero, h.stored t ht]
    · rw [if_neg (by omega), List.getElem?_eq_none (by omega), List.getElem?_eq_none (by omega)]
  rw [e] at hout
  refine (read_gives (by rw [h.type_]; decide) (Nat.zero_le _)
    (by rw [hbuf]; simp; omega) ?_).withLocal_ok
  rw [hbuf, h.size, show (0 : UInt32).toNat = 0 from rfl, Nat.sub_zero, Nat.min_self]
  exact hout

/-- A read that asks for no byte returns. -/
theorem OnDisk.readNothing (h : OnDisk f dev st inum bytes i) :
    Gives (sectors (T := T) dev) (readInto i [] 0) f (.ok (0, [])) f := by
  obtain ⟨out, hout, hfill⟩ := readBytes_first (T := T) f 0 0 h.device
    (h.mapped 0 (Or.inl rfl)) (by decide) (Nat.zero_le ([] : List UInt8).length) (Nat.zero_le _)
  have e : out = [] := List.eq_nil_of_length_eq_zero hfill.length
  rw [e] at hout
  refine (read_gives (by rw [h.type_]; decide) (Nat.zero_le _) (by decide) ?_).withLocal_ok
  rw [List.length_nil, Nat.zero_min]
  exact hout

/-- **A one-byte read at `p` returns byte `p`.** -/
theorem OnDisk.readByte (h : OnDisk f dev st inum bytes i) (x : UInt8) {p : Nat} {b : UInt8}
    (hp : bytes[p]? = some b) :
    Gives (sectors (T := T) dev) (readInto i [x] (UInt32.ofNat p)) f (.ok (1, [b])) f := by
  have hmax := h.max
  have hlt : p < bytes.length := (List.getElem?_eq_some_iff.mp hp).1
  have hpn : (UInt32.ofNat p).toNat = p := by
    rw [UInt32.toNat_ofNat']
    omega
  obtain ⟨out, hout, hfill⟩ := readBytes_first (T := T) f p 1 h.device
    (h.mapped _ (Or.inr (by omega))) (by omega) (Nat.le_refl [x].length) (by omega)
  have e : out = [b] := by
    have h1 : firstRead p 1 = 1 := by
      unfold firstRead
      omega
    have h0 := hfill.bytes 0
    rw [h1, if_pos (by decide), Nat.sub_self, Nat.add_zero, h.stored p hlt, hp] at h0
    obtain ⟨c, hc⟩ := List.length_eq_one_iff.mp hfill.length
    rw [hc] at h0 ⊢
    exact congrArg (fun c => [c]) (Option.some.inj h0)
  rw [e] at hout
  have hs := h.size
  refine (read_gives (by rw [h.type_]; decide) (by omega)
    (by rw [hpn]; simp; omega) ?_).withLocal_ok
  rw [hpn, List.length_singleton, Nat.min_eq_left (by omega)]
  exact hout

/-- The comparison loop of `write_file` finds every byte as it was written. -/
theorem OnDisk.verifyFrom (h : OnDisk f dev st inum bytes i) : ∀ (rest : List UInt8) (p : Nat),
    bytes.drop p = rest → Gives (sectors (T := T) dev) (SimpleFs.verifyFrom i p rest) f (.ok ()) f
  | [], _, _ => gives_pure ()
  | b :: rest, p, hrest => by
      have hb : bytes[p]? = some b := by
        rw [← Nat.add_zero p, ← List.getElem?_drop, hrest]
        rfl
      rw [SimpleFs.verifyFrom]
      refine (h.readByte 0 hb).unwrap_ok.then ((gives_require rfl).then ?_)
      refine h.verifyFrom rest (p + 1) ?_
      rw [← List.drop_drop, hrest]
      rfl

/-- **The verification of `write_file` never fails.** -/
theorem OnDisk.verify (h : OnDisk f dev st inum bytes i)
    (hstart : (bufferToSb (f 0).val).inodeStart = 1) :
    Gives (sectors (T := T) dev) (verifyFile dev inum bytes) f (.ok ()) f := by
  unfold verifyFile
  refine (readInode_gives hstart h.lt h.slot).unwrap_ok.then ?_
  refine h.readNothing.unwrap_ok.then ((gives_require h.size.symm).then ?_)
  exact h.verifyFrom bytes 0 rfl

end Reading

/-! ## 4. Whole runs -/

/-- **File creation round trip.** On a well-formed file system with enough unused inodes and free
    blocks, storing any sequence of files succeeds; then, on every disk with the sectors this
    leaves, each file's inode has the file's size, a read at offset 0 returns the file, a
    one-byte read at any offset returns that byte, and the verification succeeds. -/
theorem storeFiles_roundTrip {T : Type} [Disk T] [FaultFree T] (dev : UInt32) (d : T)
    (st : List UInt32) (files : List (List UInt8)) (hwf : WellFormed (sectors dev d) st)
    (hlen : ∀ bytes ∈ files, bytes.length ≤ maxFile * blockSize)
    (hinodes : files.length ≤ (unusedSlots (sectors dev d)).length)
    (hblocks : (files.map blocksFor).sum ≤ st.length) :
    ∃ inums d', storeFiles dev files d = (.ok inums, d') ∧ inums.length = files.length ∧
      ∀ (k : Nat) inum bytes, inums[k]? = some inum → files[k]? = some bytes →
        ∃ inode, ∀ e : T, sectors dev e = sectors dev d' →
          (readInode dev inum e).1 = .ok inode ∧ inode.size.toNat = bytes.length ∧
          (∀ buf, buf.length = bytes.length →
            (readInto inode buf 0 e).1 = .ok (bytes.length, bytes)) ∧
          (∀ p b x, bytes[p]? = some b →
            (readInto inode [x] (UInt32.ofNat p) e).1 = .ok (1, [b])) ∧
          (verifyFile dev inum bytes e).1 = .ok () := by
  obtain ⟨inums, g, st', hg, hwf', hfiles, _⟩ := storeFiles_gives (T := T) dev files hwf hlen
    hinodes hblocks
  obtain ⟨ho, hv⟩ := hg d rfl
  refine ⟨inums, (storeFiles dev files d).2, Prod.ext ho rfl, hfiles.length_eq, ?_⟩
  intro k inum bytes hk hb
  obtain ⟨hk', rfl⟩ := List.getElem?_eq_some_iff.mp hk
  obtain ⟨hb', rfl⟩ := List.getElem?_eq_some_iff.mp hb
  obtain ⟨i, hi⟩ := hfiles.get hk' hb'
  refine ⟨i, fun e he => ?_⟩
  rw [hv] at he
  exact ⟨(readInode_gives hwf'.inodeStart hi.lt hi.slot e he).1, hi.size,
    fun buf hbuf => (hi.readAll hbuf e he).1, fun p b x hp => (hi.readByte x hp e he).1,
    (hi.verify hwf'.inodeStart e he).1⟩

/-- A short file, one of two blocks and an empty one. -/
def threeFiles : List (List UInt8) := [[7, 8], List.replicate 600 3, []]

/-- The three take the four free blocks, and each is verified when all are stored. -/
theorem storeFiles_roundTrip_threeFiles :
    ∃ inums d', storeFiles 1 threeFiles fourBlockDisk = (.ok inums, d') ∧ inums.length = 3 ∧
      ∀ (k : Nat) inum bytes, inums[k]? = some inum → threeFiles[k]? = some bytes →
        (verifyFile 1 inum bytes d').1 = .ok () := by
  have hthree : ((List.range 3).filter (isUnused (sectors 1 fourBlockDisk))).length = 3 := by
    decide +kernel
  have hslots : 3 ≤ (unusedSlots (sectors 1 fourBlockDisk)).length :=
    hthree ▸ ((List.range_sublist.mpr (by decide : 3 ≤ 256)).filter _).length_le
  obtain ⟨inums, d', hstore, hlen, hback⟩ := storeFiles_roundTrip 1 fourBlockDisk
    [260, 259, 258, 257] threeFiles (fourBlockDisk_wellFormed 1) (by decide +kernel) hslots
    (by decide +kernel)
  refine ⟨inums, d', hstore, hlen, fun k inum bytes hinum hbytes => ?_⟩
  obtain ⟨_, hfile⟩ := hback k inum bytes hinum hbytes
  exact (hfile d' rfl).2.2.2.2

end Sprocket.SimpleFs
