/-
  File:      Sprocket/Service.lean
  Subject:   FROM THE IMAGE TOOL TO THE SERVICE: `UserService::start` (`service/mod.rs`) reads its
             files from the drive that holds the tool's image.

  The service opens a file of the root directory, makes a buffer of the file's size and reads it
  once (`readWhole`). Between the two programs lie the image, the IDE driver and the reading half of
  the file system.

  * `openFile_found`, `openFile_missing` -- opening a name on an image;
  * `image_opens_iff` -- a file opens as itself exactly when its name fits its slot, and then reads
    back whole;
  * `ide_session_agrees` -- on ANY drive, a client's session through the IDE driver is its session
    on a disk without faults that has the same sectors;
  * `service_reads_image` -- so the service gets the bytes the tool was given.
-/
import Sprocket.SimpleFs.ImageTool
import Sprocket.SimpleFs.Readers
import Sprocket.File
import Sprocket.Ide

namespace Sprocket.Service

open Bytes Prog SimpleFs File

/-! ## 1. The code -/

/-- The root directory's path. -/
abbrev slash : List UInt8 := [47]

section Code

variable {T : Type} [Disk T]

/-- A file as the service reads it: `open`, a buffer of `size()` zeros, one `read`. -/
def readWhole (path name : List UInt8) : Prog T Unit (List UInt8) := do
  let file ← openFile path name
  let r ← withLocal file (SimpleFile.read (List.replicate file.size 0))
  pure r.1

/-- A call on an open file. -/
inductive HandleCall where
  | seekAbsolute (offset : Nat)
  /-- A `read` with a buffer of `n` zeros. -/
  | read (n : Nat)
  /-- A `read` with a buffer of `size()` zeros. -/
  | readAll
  deriving DecidableEq, Repr

/-- The call, with the buffer it fills. -/
def HandleCall.code : HandleCall → Prog (T × SimpleFile) Unit (List UInt8)
  | .seekAbsolute offset => do
    SimpleFile.seekAbsolute offset
    pure []
  | .read n => SimpleFile.read (List.replicate n 0)
  | .readAll => do
    let file ← SimpleFile.theFile
    SimpleFile.read (List.replicate file.size 0)

def runCalls : List HandleCall → Prog (T × SimpleFile) Unit (List (List UInt8))
  | [] => pure []
  | call :: calls => do
    let out ← call.code
    let outs ← runCalls calls
    pure (out :: outs)

end Code

/-! ## 2. Names of the root directory -/

/-- The first entry with the name is found. -/
theorem findEntry_first {e : Entry} {post : List Entry} : ∀ (pre : List Entry) (k : Nat),
    e.name ∉ pre.map Entry.name →
    findEntry e.name k (pre ++ e :: post) = some (e.target, 260 * (k + pre.length))
  | [], k, _ => by
      rw [List.nil_append, findEntry, if_pos rfl]
      rfl
  | x :: pre, k, h => by
      rw [List.map_cons, List.mem_cons, not_or] at h
      rw [List.cons_append, findEntry, if_neg (Ne.symm h.1), findEntry_first pre (k + 1) h.2,
        List.length_cons]
      congr 3
      omega

/-- What is found is the target of an entry with the name. -/
theorem findEntry_target {name : List UInt8} {t : UInt32} {off : Nat} :
    ∀ {es : List Entry} {k : Nat}, findEntry name k es = some (t, off) →
      ∃ e ∈ es, e.name = name ∧ e.target = t
  | [], k, h => by cases h
  | e :: es, k, h => by
      rw [findEntry] at h
      by_cases hn : e.name = name
      · rw [if_pos hn] at h
        exact ⟨e, List.mem_cons_self, hn, (Prod.mk.inj (Option.some.inj h)).1⟩
      · rw [if_neg hn] at h
        obtain ⟨e', he', hrest⟩ := findEntry_target h
        exact ⟨e', List.mem_cons_of_mem e he', hrest⟩

/-- The entries before a file are those of the files before it. -/
theorem rootEntries_split (pre : List HostFile) (file : HostFile) (post : List HostFile) :
    ∃ rest, rootEntries (pre ++ file :: post) =
      rootEntries pre ++ entryAt pre.length file :: rest := by
  refine ⟨post.mapIdx fun i => entryAt (i + 1 + pre.length), ?_⟩
  simp [rootEntries, List.mapIdx_append, List.mapIdx_cons]

theorem split_at {files : List HostFile} {k : Nat} {file : HostFile} (h : files[k]? = some file) :
    files = files.take k ++ file :: files.drop (k + 1) ∧ (files.take k).length = k := by
  obtain ⟨hlt, rfl⟩ := List.getElem?_eq_some_iff.mp h
  refine ⟨?_, List.length_take_of_le (Nat.le_of_lt hlt)⟩
  rw [← List.drop_eq_getElem_cons hlt, List.take_append_drop]

/-- An entry of the directory that points to inode `k + 1` is the one of file `k`. -/
theorem entry_of_target {files : List HostFile} (hlen : files.length ≤ 124) {k : Nat}
    {file : HostFile} (hk : files[k]? = some file) {e : Entry} (he : e ∈ rootEntries files)
    (ht : e.target = UInt32.ofNat (k + 1)) : e = entryAt k file := by
  have hlt : k < files.length := (List.getElem?_eq_some_iff.mp hk).1
  have hne : UInt32.ofNat (k + 1) ≠ rootInum := ofNat_ne_root (by omega) (by omega)
  rw [rootEntries, List.mem_cons, List.mem_cons] at he
  rcases he with rfl | rfl | he
  · exact absurd ht.symm hne
  · exact absurd ht.symm hne
  · obtain ⟨i, hi⟩ := List.mem_iff_getElem?.mp he
    rw [List.getElem?_mapIdx] at hi
    obtain ⟨file', hfile', rfl⟩ := Option.map_eq_some_iff.mp hi
    have hi' : i < files.length := (List.getElem?_eq_some_iff.mp hfile').1
    have hik : i = k := by
      by_contra hne'
      exact ofNat_ne (m := i + 1) (n := k + 1) (by omega) (by omega) (by omega) ht
    subst hik
    rw [hk] at hfile'
    cases hfile'
    rfl

/-- An entry is kept whole exactly when its name fits the slot. -/
theorem entryAt_name_iff (k : Nat) (file : HostFile) :
    (entryAt k file).name = file.name ↔ file.name.length ≤ nameRoom (k + 2) := by
  simp only [entryAt, Entry.cut]
  refine ⟨fun h => ?_, List.take_of_length_le⟩
  rw [← h]
  exact List.length_take_le _ _

/-! ## 3. Opening and reading on an image -/

section Open

variable {T : Type} [Disk T] [FaultFree T] {f : Sectors} {root : Inode} {st : List UInt32}
  {files : List HostFile}

/-- `namex` looks the name up in the root directory. -/
theorem namex_gives (h : Image f root st files) (name : List UInt8) :
    Gives (sectors (T := T) rootDev) (namex slash name) f
      (match findEntry name 0 (rootEntries files) with
        | some r => .ok r.1
        | none => .err .notFound) f := by
  have hlook := dirLookup_gives (T := T) h.dir name
  unfold namex
  rw [if_pos rfl]
  refine (readRoot_gives h.wf.inodeStart h.stored).then ?_
  cases hf : findEntry name 0 (rootEntries files) with
  | none =>
    rw [hf] at hlook
    exact hlook.then_err
  | some r =>
    rw [hf] at hlook
    exact hlook.then (gives_pure _)

/-- The inode that is opened is the target of the name. -/
theorem openFile_gives (h : Image f root st files) {name : List UInt8} {r : UInt32 × Nat}
    (hr : findEntry name 0 (rootEntries files) = some r) {i : Inode} (hlt : r.1.toNat < 256)
    (hi : slot f r.1.toNat = some i) :
    Gives (sectors (T := T) rootDev) (openFile slash name) f
      (.ok { inum := r.1, inode := i, offset := 0 }) f := by
  have hname := namex_gives (T := T) h name
  rw [hr] at hname
  unfold openFile
  refine hname.unwrap_ok.then ?_
  exact (readInode_gives h.wf.inodeStart hlt hi).unwrap_ok.then (gives_pure _)

/-- **A file whose name fits its slot opens as itself.** -/
theorem openFile_found (h : Image f root st files) (hfits : Fits files) {k : Nat}
    {file : HostFile} (hk : files[k]? = some file)
    (hname : file.name.length ≤ nameRoom (k + 2)) :
    ∃ i, Filed f root st k file.bytes i ∧
      Gives (sectors (T := T) rootDev) (openFile slash file.name) f
        (.ok { inum := UInt32.ofNat (k + 1), inode := i, offset := 0 }) f := by
  obtain ⟨hsplit, hpre⟩ := split_at hk
  obtain ⟨rest, hrest⟩ := rootEntries_split (files.take k) file (files.drop (k + 1))
  rw [← hsplit, hpre] at hrest
  have hfind : findEntry file.name 0 (rootEntries files) =
      some (UInt32.ofNat (k + 1), 260 * (k + 2)) := by
    have hnew := hfits.names _ _ _ hsplit
    have hkept := (entryAt_name_iff k file).mpr hname
    rw [← hkept] at hnew
    have hfirst : findEntry (entryAt k file).name 0
        (rootEntries (files.take k) ++ entryAt k file :: rest) = _ := findEntry_first _ 0 hnew
    rw [← hrest, hkept, length_rootEntries, hpre, Nat.zero_add] at hfirst
    exact hfirst
  obtain ⟨i, hi⟩ := h.files k file hk
  exact ⟨i, hi, openFile_gives h hfind hi.onDisk.lt hi.onDisk.slot⟩

/-- A name that is not in the directory is a panic. -/
theorem openFile_missing (h : Image f root st files) {name : List UInt8}
    (hnot : name ∉ (rootEntries files).map Entry.name) :
    Gives (sectors (T := T) rootDev) (openFile slash name) f .panic f := by
  have hname := namex_gives (T := T) h name
  rw [findEntry_none 0 hnot] at hname
  unfold openFile
  exact hname.unwrap_err.then_panic

/-- A file that opens as inode `k + 1` has its name kept whole. -/
theorem openFile_inum (h : Image f root st files) {k : Nat} {file : HostFile}
    (hk : files[k]? = some file) {d : T} (hd : sectors rootDev d = f) {handle : SimpleFile}
    (hopen : (openFile slash file.name d).1 = .ok handle)
    (hinum : handle.inum = UInt32.ofNat (k + 1)) : file.name.length ≤ nameRoom (k + 2) := by
  cases hfind : findEntry file.name 0 (rootEntries files) with
  | none =>
    have hname := namex_gives (T := T) h file.name
    rw [hfind] at hname
    have hpanic : Gives (sectors (T := T) rootDev) (openFile slash file.name) f .panic f := by
      unfold openFile
      exact hname.unwrap_err.then_panic
    rw [(hpanic d hd).1] at hopen
    cases hopen
  | some r =>
    have hname := namex_gives (T := T) h file.name
    rw [hfind] at hname
    have htarget : Ends (sectors (T := T) rootDev) (openFile slash file.name) f fun o _ =>
        ∀ g, o = .ok g → g.inum = r.1 := by
      unfold openFile
      refine hname.unwrap_ok.then ?_
      refine ends_bind_of (P := fun _ _ => True) (fun _ _ => trivial) (fun i w _ => ?_) ?_ ?_
      · refine ends_pure fun g hg => ?_
        cases hg
        rfl
      · exact fun _ _ _ _ hg => by cases hg
      · exact fun _ _ _ hg => by cases hg
    have hr1 : r.1 = UInt32.ofNat (k + 1) := (htarget d hd handle hopen).symm.trans hinum
    obtain ⟨e, he, hen, het⟩ : ∃ e ∈ rootEntries files, e.name = file.name ∧ e.target = r.1 :=
      findEntry_target hfind
    have hlen : files.length ≤ 124 := h.length_le
    rw [entry_of_target hlen hk he (het.trans hr1)] at hen
    exact (entryAt_name_iff k file).mp hen

/-- **The service reads the whole file.** -/
theorem readWhole_gives {k : Nat} {bytes name : List UInt8} {i : Inode}
    (hi : Filed f root st k bytes i)
    (hopen : Gives (sectors (T := T) rootDev) (openFile slash name) f
      (.ok { inum := UInt32.ofNat (k + 1), inode := i, offset := 0 }) f) :
    Gives (sectors (T := T) rootDev) (readWhole slash name) f (.ok bytes) f := by
  have hsize : (List.replicate i.size.toNat (0 : UInt8)).length = bytes.length := by
    rw [List.length_replicate, hi.onDisk.size]
  have hread := hi.onDisk.readAll (T := T) hsize
  have hsum : 0 + (List.replicate i.size.toNat (0 : UInt8)).length < 2 ^ 32 := by
    have hmax := hi.onDisk.max
    rw [hsize]
    omega
  have hcall : Gives (onView (sectors (T := T) rootDev))
      (SimpleFile.read (List.replicate i.size.toNat 0))
      (f, { inum := UInt32.ofNat (k + 1), inode := i, offset := 0 }) (.ok bytes)
      (f, { inum := UInt32.ofNat (k + 1), inode := i,
            offset := 0 + (List.replicate i.size.toNat (0 : UInt8)).length }) := by
    unfold SimpleFile.read
    refine gives_theFile.then (hread.unwrap_ok.onFst.then ?_)
    exact (gives_checkedAdd hsum).then ((gives_setOffset _).then (gives_pure _))
  unfold readWhole
  exact hopen.then (hcall.withLocal_ok.then (gives_pure _))

end Open

/-- **On the image of the tool a file opens as itself exactly when its name fits its slot**, and
    then the service reads the bytes the tool was given; a name that no slot keeps is a panic. The
    image may be read on any disk without faults that has its sectors. -/
theorem image_opens_iff {T : Type} [Disk T] [FaultFree T] (hD : OneDisk T {0, rootDev}) (d : T)
    (hfit : tableStart (sectors rootDev d) + 255 < 2 ^ 32)
    (hall : ∀ k, k < numInodes → Vacated (sectors rootDev d) k) (files : List HostFile)
    (hhost : ∀ file ∈ files, 0 ∉ file.path ∧ file.bytes.length < 2 ^ 32) (hfits : Fits files)
    {E : Type} [Disk E] [FaultFree E] (e : E)
    (he : sectors rootDev e = sectors rootDev (main files d).2) :
    (∀ k file, files[k]? = some file →
      ((∃ handle, (openFile slash file.name e).1 = .ok handle ∧
        handle.inum = UInt32.ofNat (k + 1)) ↔ file.name.length ≤ nameRoom (k + 2)) ∧
      (file.name.length ≤ nameRoom (k + 2) →
        (readWhole slash file.name e).1 = .ok file.bytes)) ∧
    ∀ name, name ∉ (rootEntries files).map Entry.name → (openFile slash name e).1 = .panic := by
  have hdisk : sectors (T := T) 0 = sectors rootDev := hD 0 (by simp) rootDev (by simp)
  obtain ⟨_, root, st, himage⟩ := (main_ends hdisk hfit hall hhost d rfl).1 hfits
  refine ⟨fun k file hk => ⟨⟨?_, fun hname => ?_⟩, fun hname => ?_⟩, fun name hnot => ?_⟩
  · rintro ⟨handle, hopen, hinum⟩
    exact openFile_inum himage hk he hopen hinum
  · obtain ⟨i, _, hopen⟩ := openFile_found (T := E) himage hfits hk hname
    exact ⟨_, (hopen e he).1, rfl⟩
  · obtain ⟨i, hi, hopen⟩ := openFile_found (T := E) himage hfits hk hname
    exact (readWhole_gives hi hopen e he).1
  · exact (openFile_missing himage hnot e he).1

/-- The page of the build, on an image of zeros. -/
theorem image_opens_twoFiles :
    (readWhole slash [105, 110, 100, 101, 120, 46, 104, 116, 109, 108]
      (main twoFiles zeroImage).2).1 = .ok [60, 104, 49, 62] :=
  (((image_opens_iff (oneDisk_diskFile {0, rootDev}) zeroImage (by decide +kernel)
    (fun k _ => zeroImage_vacated k) twoFiles (by decide) twoFiles_fits
    (main twoFiles zeroImage).2 rfl).1 1 _ rfl).2 (by decide))

/-! ## 4. Through the IDE driver -/

/-- The disk the driver makes of the drives: the low bit of the device number picks the drive, the
    low 28 bits of the sector number the sector. -/
def diskOf (m : Ata.Media) : MemDisk :=
  ⟨fun dev s => m (Ide.deviceOf dev) (s.toNat % 2 ^ 28)⟩

/-- The drives hold the sectors `m`, and the disk is the one made of them. -/
def Shows (m : Ata.Media) (x : Ata.Drive) (y : MemDisk) : Prop := x.media = m ∧ y = diskOf m

/-- A read of at most a block through the driver returns the sector, and leaves the sectors. -/
theorem sameReads_ide (m : Ata.Media) : SameReads (Shows m) := by
  rintro dev s buf hbuf x y ⟨hx, hy⟩
  have hread := Ide.read_gives (m := m) (r := x.regs) (c := x.current) dev s buf (x, buf)
    (by rw [← hx]; rfl)
  have hmedia : (Disk.read dev s (x, buf)).2.1.media = m := congrArg (fun w => w.1.1) hread.2
  have hbytes : (Disk.read dev s (x, buf)).2.2 =
      (m (Ide.deviceOf dev) (s.toNat % 2 ^ 28)).val.take buf.length ++ buf.drop 512 :=
    congrArg Prod.snd hread.2
  refine ⟨hread.1, ⟨hmedia, hy⟩, ?_⟩
  rw [hbytes, hy]
  rfl

section Agreeing

variable (m : Ata.Media)

theorem openFile_agree (path name : List UInt8) :
    Agree (Shows m) (openFile path name) (openFile path name) := by
  unfold openFile
  refine (namex_agree (sameReads_ide m) path name).unwrap.bind fun inum => ?_
  exact (readInode_agree (sameReads_ide m) rootDev inum).unwrap.bind fun inode => agree_pure _

theorem setOffset_agree (offset : Nat) :
    Agree (Both (Shows m)) (SimpleFile.setOffset offset) (SimpleFile.setOffset offset) :=
  agree_modifySnd fun file : SimpleFile => { file with offset := offset }

theorem fileRead_agree (buffer : List UInt8) :
    Agree (Both (Shows m)) (SimpleFile.read buffer) (SimpleFile.read buffer) := by
  unfold SimpleFile.read
  refine agree_readSnd.bind fun file => ?_
  refine (readInto_agree (sameReads_ide m) file.inode buffer _).unwrap.onFst.bind fun r => ?_
  refine (agree_checkedAdd _ _).bind fun offset => ?_
  exact (setOffset_agree m offset).bind fun _ => agree_pure _

theorem readWhole_agree (path name : List UInt8) :
    Agree (Shows m) (readWhole path name) (readWhole path name) := by
  unfold readWhole
  refine (openFile_agree m path name).bind fun file => ?_
  exact ((fileRead_agree m _).agreeAt file).withLocal.bind fun r => agree_pure r.1

end Agreeing

/-! ## 5. The tool's image in the drive -/

/-- An image is determined by its first `FS_SIZE` sectors. -/
theorem image_congr {f g : Sectors} {root : Inode} {st : List UInt32} {files : List HostFile}
    (h : Image f root st files) (hsame : ∀ s : UInt32, s.toNat < fsSize → g s = f s) :
    Image g root st files := by
  have hzero : g 0 = f 0 := hsame 0 (by decide)
  have htable : ∀ b, IsTable b → g b = f b := fun b hb => hsame b (by
    have := hb.2
    show b.toNat < 1000
    omega)
  have hslot : ∀ k, k < 256 → slot g k = slot f k := fun k hk => by
    rw [slot, htable _ (isTable_tableBlock hk), slot]
  have hfree : Freelist g st := h.wf.freelist.congr (by rw [freelistHead, hzero, freelistHead])
    fun b hb => hsame b (h.free b hb)
  have hwf : WellFormed g st := by
    refine ⟨?_, fun b hb => ?_, hfree, h.wf.free_data⟩
    · rw [hzero]
      exact h.wf.inodeStart
    · rw [htable b hb]
      exact h.wf.table b hb
  refine ⟨hwf, (hslot 0 (by decide)).trans h.stored, ?_, ?_, h.free, h.left, h.onImage, h.unmapped,
    fun k file hk => ?_⟩
  · exact h.dir.frame hfree (List.suffix_refl st) fun n b hb _ => hsame b (h.onImage n b hb)
  · rw [← h.unused]
    exact unusedSlots_congr fun k hk => by rw [isUnused, hslot k hk, isUnused]
  · obtain ⟨i, hi⟩ := h.files k file hk
    refine ⟨i, hi.onDisk.frame (hslot _ hi.onDisk.lt) (fun n b hb _ => ?_) (List.suffix_refl st),
      hi.onImage, hi.apart⟩
    exact hsame b (hi.onImage n b hb)

section Drive

variable {files : List HostFile} {image : DiskFile} {root : Inode} {st : List UInt32}
  {x : Ata.Drive}

/-- The image in the drive that `ROOT_DEV` names. -/
theorem image_drive (himage : Image (sectors rootDev image) root st files)
    (hx : ∀ s : UInt32, s.toNat < fsSize →
      x.media (Ide.deviceOf rootDev) s.toNat = image.sector s) :
    Image (sectors rootDev (diskOf x.media)) root st files := by
  refine image_congr himage fun s hs => ?_
  have hmod : s.toNat % 2 ^ 28 = s.toNat := Nat.mod_eq_of_lt (by
    have : s.toNat < 1000 := hs
    omega)
  show x.media (Ide.deviceOf rootDev) (s.toNat % 2 ^ 28) = image.sector s
  rw [hmod]
  exact hx s hs

/-- **A file is read through the driver.** -/
theorem readWhole_drive (hdrive : Image (sectors rootDev (diskOf x.media)) root st files)
    (hfits : Fits files) {k : Nat} {file : HostFile} (hk : files[k]? = some file)
    (hname : file.name.length ≤ nameRoom (k + 2)) :
    (readWhole slash file.name x).1 = .ok file.bytes ∧
      (readWhole slash file.name x).2.media = x.media := by
  obtain ⟨i, hi, hopen⟩ := openFile_found (T := MemDisk) hdrive hfits hk hname
  obtain ⟨hread, _⟩ := readWhole_gives hi hopen (diskOf x.media) rfl
  obtain ⟨hsame, hmedia, _⟩ := readWhole_agree x.media slash file.name x (diskOf x.media) ⟨rfl, rfl⟩
  exact ⟨hsame.trans hread, hmedia⟩

end Drive

/-- **The service reads the files the tool was given.** The tool writes an image, from any image
    file whose table slots it vacates; the image's sectors are those of the drive that `ROOT_DEV`
    names. Then the service's read of a file whose name fits its slot, through the file system and
    the IDE driver, returns the bytes of the host's file, and leaves the sectors of the drive. -/
theorem service_reads_image (d : DiskFile)
    (hfit : tableStart (sectors rootDev d) + 255 < 2 ^ 32)
    (hall : ∀ k, k < numInodes → Vacated (sectors rootDev d) k) (files : List HostFile)
    (hhost : ∀ file ∈ files, 0 ∉ file.path ∧ file.bytes.length < 2 ^ 32) (hfits : Fits files)
    (x : Ata.Drive)
    (hx : ∀ s : UInt32, s.toNat < fsSize →
      x.media (Ide.deviceOf rootDev) s.toNat = (main files d).2.sector s)
    (k : Nat) (file : HostFile) (hk : files[k]? = some file)
    (hname : file.name.length ≤ nameRoom (k + 2)) :
    (main files d).1 = .ok () ∧ (readWhole slash file.name x).1 = .ok file.bytes ∧
      (readWhole slash file.name x).2.media = x.media := by
  obtain ⟨hok, root, st, himage⟩ := (main_ends (T := DiskFile) rfl hfit hall hhost d rfl).1 hfits
  exact ⟨hok, readWhole_drive (image_drive himage hx) hfits hk hname⟩

/-- Drives that hold an image. -/
def drivesWith (image : DiskFile) : Ata.Drive :=
  { Ide.zeroDrive with media := fun _ lba => image.sector (UInt32.ofNat lba) }

theorem drivesWith_media (image : DiskFile) (device : Bool) (s : UInt32) :
    (drivesWith image).media device s.toNat = image.sector s :=
  congrArg image.sector UInt32.ofNat_toNat

/-- `README.md` of the build. -/
theorem service_reads_twoFiles :
    (readWhole slash [82, 69, 65, 68, 77, 69, 46, 109, 100]
      (drivesWith (main twoFiles zeroImage).2)).1 = .ok [35, 32, 83] :=
  (service_reads_image zeroImage (by decide +kernel) (fun k _ => zeroImage_vacated k) twoFiles
    (by decide) twoFiles_fits (drivesWith (main twoFiles zeroImage).2)
    (fun s _ => drivesWith_media _ _ s) 0 _ rfl (by decide)).2.1

end Sprocket.Service
