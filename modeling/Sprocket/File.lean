/-
  File:      Sprocket/File.lean
  Subject:   FILE HANDLES (`src/file.rs`): a cursor over `read` of the file system.

  A `SimpleFile` is an inode with an offset. `FileHandle::read` reads at the offset, unwraps the
  result, and advances the offset by the length of the BUFFER, not by the number of bytes `read`
  reports. A handle opened on a file is meant to deliver it in order, whatever the buffers
  (`ReadsInOrder`).

  * `read_advances` -- what a successful call does to the cursor, on any disk;
  * `readsInOrder_from_iff` -- from any offset, over any sequence of calls: the handle delivers the
    file in order exactly as long as no buffer reaches past the end and every read is one the file
    system gets right (`StaysInside`);
  * `readsInOrder_iff` -- the same for a handle that was just opened.
-/
import Sprocket.SimpleFs.Offsets

namespace Sprocket.File

open Bytes Prog SimpleFs

/-! ## 1. Handles -/

/-- An open file. The offset is a `usize`. -/
structure SimpleFile where
  inum : UInt32
  inode : Inode
  offset : Nat

variable {T : Type}

/-- `open`: both lookups are unwrapped. -/
def openFile [Disk T] (path name : List UInt8) : Prog T Unit SimpleFile := do
  let inum ← unwrap (namex path name)
  let inode ← unwrap (readInode rootDev inum)
  pure { inum := inum, inode := inode, offset := 0 }

namespace SimpleFile

/-- `size()`. -/
def size (file : SimpleFile) : Nat := file.inode.size.toNat

/-- The handle a method holds by `&mut`. -/
def theFile : Prog (T × SimpleFile) Unit SimpleFile := fun s => (.ok s.2, s)

/-- Assign to its offset. -/
def setOffset (offset : Nat) : Prog (T × SimpleFile) Unit Unit :=
  modify fun s => (s.1, { s.2 with offset := offset })

def seekAbsolute (offset : Nat) : Prog (T × SimpleFile) Unit Unit := setOffset offset

/-- `FileHandle::read`: the buffer as the call leaves it. -/
def read [Disk T] (buffer : List UInt8) : Prog (T × SimpleFile) Unit (List UInt8) := do
  let file ← theFile
  let r ← onFst (unwrap (readInto file.inode buffer (UInt32.ofNat file.offset)))
  let offset ← checkedAdd file.offset buffer.length
  setOffset offset
  pure r.2

/-- `FileHandle::write` is not implemented. -/
def write (_buffer : List UInt8) : Prog (T × SimpleFile) Unit Unit := crash

end SimpleFile

section Calls

variable {υ : Type} {view : T → υ} {v : υ} {file : SimpleFile}

theorem gives_theFile : Gives (onView view) SimpleFile.theFile (v, file) (.ok file) (v, file) := by
  rintro ⟨d, g⟩ hd
  obtain ⟨rfl, rfl⟩ := Prod.mk.inj hd
  exact ⟨rfl, rfl⟩

theorem gives_setOffset (offset : Nat) :
    Gives (onView view) (SimpleFile.setOffset offset) (v, file) (.ok ())
      (v, { file with offset := offset }) := by
  refine gives_modify_view fun s hs => ?_
  obtain ⟨rfl, rfl⟩ := Prod.mk.inj hs
  rfl

/-- **The cursor moves by the length of the buffer**, whatever was read. -/
theorem read_advances [Disk T] (buffer : List UInt8) {d : T} {out : List UInt8}
    {s : T × SimpleFile} (h : SimpleFile.read buffer (d, file) = (.ok out, s)) :
    s.2 = { file with offset := file.offset + buffer.length } := by
  have hread : Ends (onView fun _ : T => ()) (SimpleFile.read buffer) ((), file) fun o w =>
      ∀ out, o = .ok out → w.2 = { file with offset := file.offset + buffer.length } := by
    unfold SimpleFile.read
    refine gives_theFile.then ?_
    refine ends_bind_of (P := fun _ w => w = ((), file)) (ends_onFst fun _ _ => rfl) ?_ ?_ ?_
    · rintro r w rfl
      by_cases hsum : file.offset + buffer.length < 2 ^ 32
      · refine (gives_checkedAdd hsum).then ((gives_setOffset _).then (ends_pure ?_))
        exact fun _ _ => rfl
      · exact Gives.ends (Gives.then_panic (gives_checkedAdd_over (Nat.le_of_not_lt hsum))) nofun
    · exact fun _ _ _ => nofun
    · exact fun _ _ => nofun
  have hend := hread (d, file) rfl
  rw [h] at hend
  exact hend out rfl

end Calls

/-! ## 2. Sequences of calls -/

section Sequences

variable [Disk T] [FaultFree T]

/-- **The calls deliver the file in order**: none of them panics, the offset is always the number
    of bytes asked for so far, or the size where that is smaller, and the bytes the offset moves
    over are the ones the buffer gets. -/
def ReadsInOrder : T → SimpleFile → Nat → List (List UInt8) → Prop
  | _, file, total, [] => file.offset = min file.size total
  | d, file, total, buf :: bufs => file.offset = min file.size total ∧
      ∃ out s, SimpleFile.read buf (d, file) = (.ok out, s) ∧
        out.take (s.2.offset - file.offset) =
          slice (content (sectors file.inode.device d) file.inode) file.offset
            (s.2.offset - file.offset) ∧
        ReadsInOrder s.1 s.2 (total + buf.length) bufs

theorem ReadsInOrder.offset {d : T} {file : SimpleFile} {total : Nat} {bufs : List (List UInt8)}
    (h : ReadsInOrder d file total bufs) : file.offset = min file.size total := by
  cases bufs with
  | nil => exact h
  | cons buf bufs => exact h.1

/-- No buffer reaches past the end, and every read is one the file system gets right: it ends with
    its first block, or starts at a block and is more than one block longer than its offset. -/
def StaysInside (size : Nat) : Nat → List Nat → Prop
  | _, [] => True
  | offset, n :: ns => offset + n ≤ size ∧ ReadFits offset n ∧ StaysInside size (offset + n) ns

/-- A handle on a file whose blocks are mapped up to its size. -/
structure Readable (file : SimpleFile) : Prop where
  type_ : file.inode.type_ = .file ∨ file.inode.type_ = .directory
  size : file.size ≤ maxFile * blockSize
  whole : file.inode.Whole
  inside : file.offset ≤ file.size

variable {d : T} {file : SimpleFile} {buf : List UInt8}

/-- A call within the file. -/
theorem Readable.read (h : Readable file) (hpos : 0 < buf.length)
    (hend : file.offset + buf.length ≤ file.size) :
    ∃ out s, SimpleFile.read buf (d, file) = (.ok out, s) ∧
      s.2 = { file with offset := file.offset + buf.length } ∧
      (ReadFits file.offset buf.length → out =
        slice (content (sectors file.inode.device d) file.inode) file.offset buf.length) ∧
      (¬ ReadFits file.offset buf.length →
        out[512 - file.offset % 512]? = buf[512 - file.offset % 512]?) := by
  have hmax : file.inode.size.toNat ≤ 32768 := h.size
  have hend' : file.offset + buf.length ≤ file.inode.size.toNat := hend
  have hunused := InodeType.ne_unused h.type_
  have hoff : (UInt32.ofNat file.offset).toNat = file.offset := by
    rw [UInt32.toNat_ofNat']
    omega
  have hlen : readLen file.inode (UInt32.ofNat file.offset) (buf.length % 2 ^ 32) = buf.length := by
    rw [readLen, hoff]
    omega
  have hlt : (UInt32.ofNat file.offset).toNat < file.inode.size.toNat := by omega
  have hsum : (UInt32.ofNat file.offset).toNat + buf.length % 2 ^ 32 < 2 ^ 32 := by omega
  obtain ⟨out, hout, hfit, hmiss⟩ := read_fits (T := T) hunused hmax h.whole hlt
    (sectors file.inode.device d) hsum
  rw [hlen, hoff] at hfit hmiss
  have hcall : Gives (onView (sectors (T := T) file.inode.device)) (SimpleFile.read buf)
      (sectors file.inode.device d, file) (.ok out)
      (sectors file.inode.device d, { file with offset := file.offset + buf.length }) := by
    refine gives_theFile.then (hout.withLocal_ok.unwrap_ok.onFst.then ?_)
    refine (gives_checkedAdd (by omega)).then ((gives_setOffset _).then ?_)
    exact gives_pure _
  obtain ⟨hok, hview⟩ := hcall (d, file) rfl
  refine ⟨out, (SimpleFile.read buf (d, file)).2, Prod.ext hok rfl, congrArg Prod.snd hview, ?_,
    hmiss⟩
  intro hfits
  have hcontent := (hfit hfits).content h.whole hend'
  rwa [List.drop_length, List.append_nil] at hcontent

/-- The handle after a call within the file. -/
theorem Readable.advance (h : Readable file) {n : Nat} (hend : file.offset + n ≤ file.size) :
    Readable { file with offset := file.offset + n } where
  type_ := h.type_
  size := h.size
  whole := h.whole
  inside := hend

/-- Calls that stay inside deliver the file in order. -/
theorem Readable.inOrder (h : Readable file) (bufs : List (List UInt8))
    (hpos : ∀ buf ∈ bufs, 0 < buf.length)
    (hstay : StaysInside file.size file.offset (bufs.map List.length)) :
    ReadsInOrder d file file.offset bufs := by
  have hoff : file.offset = min file.size file.offset := (Nat.min_eq_right h.inside).symm
  induction bufs generalizing d file with
  | nil => exact hoff
  | cons buf bufs ih =>
    obtain ⟨hend, hfits, hrest⟩ := hstay
    obtain ⟨out, s, hread, hfile, hout, _⟩ := h.read (d := d) (hpos buf List.mem_cons_self) hend
    have hmoved : s.2.offset - file.offset = buf.length := by
      rw [hfile]
      exact Nat.add_sub_cancel_left ..
    have hbytes := hout hfits
    refine ⟨hoff, out, s, hread, ?_, ?_⟩
    · rw [hmoved, hbytes]
      exact List.take_of_length_le (List.length_take_le _ _)
    · rw [hfile]
      exact ih (h.advance hend) (fun b hb => hpos b (List.mem_cons_of_mem _ hb)) hrest
        (Nat.min_eq_right hend).symm

/-- A byte that is not the one at a position of the file. -/
theorem exists_other_byte (f : Sectors) (i : Inode) {p : Nat} (hp : p < i.size.toNat) :
    ∃ x : UInt8, (content f i)[p]? ≠ some x := by
  refine ⟨(fileByte f i p).getD 0 + 1, ?_⟩
  rw [getElem?_content f i hp]
  simp

/-- A call past the end, or one the file system gets wrong, breaks the order for some buffer. -/
theorem ReadsInOrder.fits (h : Readable file) {n : Nat} (hpos : 0 < n) (ns : List Nat)
    (hall : ∀ bufs, bufs.map List.length = n :: ns → ReadsInOrder d file file.offset bufs) :
    file.offset + n ≤ file.size ∧ ReadFits file.offset n := by
  have hlen : ∀ x : UInt8, (List.replicate n x :: ns.map (List.replicate · 0)).map List.length =
      n :: ns := by
    intro x
    rw [List.map_cons, List.length_replicate, List.map_map]
    simp [Function.comp_def]
  have hend : file.offset + n ≤ file.size := by
    obtain ⟨_, out, s, hread, _, hrest⟩ := hall _ (hlen 0)
    have hoff := hrest.offset
    rw [read_advances _ hread, List.length_replicate] at hoff
    have hmin : file.offset + n = min file.size (file.offset + n) := hoff
    omega
  refine ⟨hend, ?_⟩
  by_contra hfits
  have hgap : 512 - file.offset % 512 < n := by omega
  have hend' : file.offset + n ≤ file.inode.size.toNat := hend
  obtain ⟨x, hx⟩ := exists_other_byte (sectors file.inode.device d) file.inode
    (show file.offset + (512 - file.offset % 512) < file.inode.size.toNat by omega)
  have hrep : (List.replicate n x).length = n := List.length_replicate
  obtain ⟨_, out, s, hread, hbytes, _⟩ := hall _ (hlen x)
  have hwithin : file.offset + (List.replicate n x).length ≤ file.size := by rwa [hrep]
  obtain ⟨out', s', hread', hfile, _, hmiss⟩ := h.read (d := d) (by rwa [hrep]) hwithin
  obtain ⟨hsame, rfl⟩ := Prod.mk.inj (hread.symm.trans hread')
  obtain rfl := Outcome.ok.inj hsame
  rw [hrep] at hfile hmiss
  have hmoved : s.2.offset - file.offset = n := by
    rw [hfile]
    exact Nat.add_sub_cancel_left ..
  -- the byte behind the first block is the buffer's own
  have hkept : out[512 - file.offset % 512]? = some x := by
    rw [hmiss hfits, List.getElem?_replicate, if_pos hgap]
  have hbyte : (out.take n)[512 - file.offset % 512]? = some x := by
    rw [List.getElem?_take, if_pos hgap, hkept]
  rw [hmoved] at hbytes
  rw [hbytes, getElem?_slice, if_pos hgap] at hbyte
  exact hx hbyte

/-- **When a handle delivers the file in order**, from any offset in it. -/
theorem readsInOrder_from_iff (h : Readable file) (ns : List Nat) (hpos : ∀ n ∈ ns, 0 < n) :
    (∀ bufs, bufs.map List.length = ns → ReadsInOrder d file file.offset bufs) ↔
      StaysInside file.size file.offset ns := by
  constructor
  · intro hall
    induction ns generalizing d file with
    | nil => trivial
    | cons n ns ih =>
      have hn : 0 < n := hpos n List.mem_cons_self
      obtain ⟨hend, hfits⟩ := ReadsInOrder.fits h hn ns hall
      refine ⟨hend, hfits, ?_⟩
      have hrep : (List.replicate n (0 : UInt8)).length = n := List.length_replicate
      have hwithin : file.offset + (List.replicate n (0 : UInt8)).length ≤ file.size := by
        rwa [hrep]
      obtain ⟨out, s, hread, hfile, _⟩ := h.read (d := d) (by rwa [hrep]) hwithin
      rw [hrep] at hfile
      refine ih (d := s.1) (h.advance hend) (fun m hm => hpos m (List.mem_cons_of_mem _ hm)) ?_
      -- the calls behind the first one, whatever its buffer
      intro bufs hbufs
      obtain ⟨_, out', s', hread', _, hrest⟩ := hall (List.replicate n 0 :: bufs)
        (by rw [List.map_cons, hrep, hbufs])
      obtain ⟨_, rfl⟩ := Prod.mk.inj (hread.symm.trans hread')
      rw [hfile, hrep] at hrest
      exact hrest
  · rintro hstay bufs rfl
    exact h.inOrder bufs (fun buf hbuf => hpos _ (List.mem_map_of_mem hbuf)) hstay

/-- **Sequential reads through a handle that was just opened**, over any sequence of buffers. -/
theorem readsInOrder_iff (d : T) (file : SimpleFile) (ns : List Nat) (hopen : file.offset = 0)
    (htype : file.inode.type_ = .file ∨ file.inode.type_ = .directory)
    (hsize : file.size ≤ maxFile * blockSize) (hwhole : file.inode.Whole)
    (hpos : ∀ n ∈ ns, 0 < n) :
    (∀ bufs, bufs.map List.length = ns → ReadsInOrder d file 0 bufs) ↔
      StaysInside file.size 0 ns := by
  have h : Readable file :=
    { type_ := htype, size := hsize, whole := hwhole, inside := by rw [hopen]; exact Nat.zero_le _ }
  have hiff := readsInOrder_from_iff (d := d) h ns hpos
  rwa [hopen] at hiff

end Sequences

/-- A handle on the file of 600 bytes. -/
def twoBlockFile : SimpleFile := { inum := 2, inode := twoBlockInode, offset := 0 }

/-- Two calls within the first block. -/
theorem readsInOrder_twoCalls :
    ReadsInOrder sevensDisk twoBlockFile 0 [List.replicate 100 0, List.replicate 200 0] := by
  refine (readsInOrder_iff sevensDisk twoBlockFile [100, 200] rfl (Or.inl rfl) (by decide)
    twoBlockInode_whole (by simp)).mpr ⟨by decide, Or.inl (by decide), by decide,
      Or.inl (by decide), trivial⟩ _ ?_
  simp

/-- A handle on a file of three bytes. -/
def threeByteFile : SimpleFile :=
  { inum := 2, inode := { twoBlockInode with size := 3 }, offset := 0 }

theorem threeByteFile_whole : threeByteFile.inode.Whole := by
  intro k hk
  have hk1 : k < 1 := hk
  obtain rfl : k = 0 := by omega
  exact ⟨300, by decide, by decide⟩

/-- **A short read moves the cursor past the end, and the next call panics.** -/
theorem read_past_end_panics :
    threeByteFile.inode.Whole ∧ threeByteFile.size = 3 ∧
    (SimpleFile.read [0, 0, 0, 0] (sevensDisk, threeByteFile)).1 = .ok [7, 7, 7, 0] ∧
    (SimpleFile.read [0, 0, 0, 0] (sevensDisk, threeByteFile)).2.2.offset = 4 ∧
    (SimpleFile.read [0]
      (SimpleFile.read [0, 0, 0, 0] (sevensDisk, threeByteFile)).2).1 = .panic ∧
    ¬ ReadsInOrder sevensDisk threeByteFile 0 [[0, 0, 0, 0], [0]] := by
  refine ⟨threeByteFile_whole, by decide, by decide +kernel, by decide +kernel,
    by decide +kernel, ?_⟩
  rintro ⟨_, out, s, hread, _, hrest⟩
  have hoff := hrest.offset
  rw [read_advances _ hread] at hoff
  exact absurd hoff (by decide)

end Sprocket.File
