/-
  File:      Sprocket/SimpleFs/Layout.lean
  Subject:   THE ON-DISK RECORDS OF simple_fs: superblock, inode, directory entry.

  The constants of `simple_fs/src/lib.rs` and the `repr(C)` records, with the byte layout the
  casts of the source give them on a little-endian 32-bit target: `SuperBlock` is five words,
  `Inode` is 272 bytes (two bytes of padding after the 16-bit tag), `DirEntry` is 260 bytes (two
  bytes of padding after the name). Padding carries no value; the records are written with zero
  padding.

  * `bufferToSb_splice` -- a superblock stored in a block is the superblock read back from it;
  * `bufferToSb_setFreelistStart` -- assigning the freelist head changes that field alone;
  * `inodeFrom_splice` -- an inode stored in a block is the inode read back from it.
-/
import Sprocket.Lib.Bytes

namespace Sprocket.SimpleFs

open Bytes

/-! ## 1. Constants -/

abbrev ndirect : Nat := 64
abbrev nindirect : Nat := 0
abbrev blockSize : Nat := 512
/-- Size in bytes of a block address. -/
abbrev blockaddrSize : Nat := 4
abbrev indirectPerBlock : Nat := blockSize / blockaddrSize
/-- Maximum file size in blocks. -/
abbrev maxFile : Nat := ndirect + indirectPerBlock * nindirect
abbrev rootInum : UInt32 := 0
abbrev rootDev : UInt32 := 1
abbrev numInodes : Nat := 256
abbrev dirnameSize : Nat := 254
abbrev superblockAddr : UInt32 := 0
abbrev unusedBlockaddr : UInt32 := 0
abbrev unusedInum : UInt32 := 4294967295

/-! ## 2. The superblock -/

structure SuperBlock where
  size : UInt32
  nblocks : UInt32
  ninodes : UInt32
  inodeStart : UInt32
  freelistStart : UInt32
  deriving DecidableEq, Repr

/-- `buffer_to_sb`: the superblock a block holds. -/
def bufferToSb (b : List UInt8) : SuperBlock where
  size := u32At b 0
  nblocks := u32At b 4
  ninodes := u32At b 8
  inodeStart := u32At b 12
  freelistStart := u32At b 16

/-- The bytes of a superblock. -/
def sbBytes (sb : SuperBlock) : List UInt8 :=
  [sb.size, sb.nblocks, sb.ninodes, sb.inodeStart, sb.freelistStart].flatMap le32

theorem length_sbBytes (sb : SuperBlock) : (sbBytes sb).length = 20 := length_flatMap_le32 _

/-- **A superblock stored at the start of a block is the one read back.** -/
theorem bufferToSb_splice (b : List UInt8) (sb : SuperBlock) :
    bufferToSb (splice b 0 (sbBytes sb)) = sb := by
  have hin : ∀ k (hk : k < 5), u32At (splice b 0 (sbBytes sb)) (0 + 4 * k) =
      [sb.size, sb.nblocks, sb.ninodes, sb.inodeStart, sb.freelistStart].get ⟨k, hk⟩ := by
    intro k hk
    have hword := slice_flatMap_le32
      [sb.size, sb.nblocks, sb.ninodes, sb.inodeStart, sb.freelistStart] k hk
    rw [u32At, slice_splice_inner (Nat.zero_le _) (by rw [length_sbBytes]; omega), sbBytes, hword,
      u32_leNat_le32]
  unfold bufferToSb
  rw [hin 0 (by decide), hin 1 (by decide), hin 2 (by decide), hin 3 (by decide),
    hin 4 (by decide)]
  rfl

/-- The buffer after an assignment to `buffer_to_sb(buffer).freelist_start`. -/
def setFreelistStart (b : List UInt8) (addr : UInt32) : List UInt8 := splice b 16 (le32 addr)

theorem bufferToSb_setFreelistStart {b : List UInt8} (addr : UInt32) (h : b.length = 512) :
    bufferToSb (setFreelistStart b addr) = { bufferToSb b with freelistStart := addr } := by
  have h16 : 16 ≤ b.length := by omega
  have hother : ∀ i, i + 4 ≤ 16 → u32At (splice b 16 (le32 addr)) i = u32At b i :=
    fun i hi => u32At_splice_other h16 (Or.inl hi)
  simp only [bufferToSb, setFreelistStart, u32At_splice_same addr h16, hother 0 (by omega),
    hother 4 (by omega), hother 8 (by omega), hother 12 (by omega)]

theorem length_setFreelistStart {b : List UInt8} (addr : UInt32) (h : b.length = 512) :
    (setFreelistStart b addr).length = 512 := by
  rw [setFreelistStart, length_splice (by rw [length_le32]; omega), h]

/-! ## 3. Inodes -/

inductive InodeType where
  | unused
  | file
  | directory
  deriving DecidableEq, Repr

/-- The tag `repr(u16)` gives the type. -/
def InodeType.tag : InodeType → UInt16
  | .unused => 0
  | .file => 1
  | .directory => 2

/-- The type a tag stands for: no other bit pattern is a value of the enum. -/
def InodeType.ofTag (t : UInt16) : Option InodeType :=
  if t = 0 then some .unused else if t = 1 then some .file
  else if t = 2 then some .directory else none

structure Inode where
  type_ : InodeType
  device : UInt32
  major : UInt16
  minor : UInt16
  size : UInt32
  blocks : Vector UInt32 ndirect
  deriving DecidableEq, Repr

/-- `UNUSED_INODE`. -/
def unusedInode : Inode where
  type_ := .unused
  device := 0
  major := 0
  minor := 0
  size := 0
  blocks := Vector.replicate ndirect 0

/-- `size_of::<Inode>()`. -/
abbrev inodeSize : Nat := 272

/-- `INODES_PER_BLOCK!`. -/
abbrev inodesPerBlock : Nat := blockSize / inodeSize

/-- The bytes of an inode. -/
def inodeBytes (i : Inode) : List UInt8 :=
  (le16 i.type_.tag ++ [0, 0]) ++ (le32 i.device ++ ((le16 i.major ++ le16 i.minor) ++
    (le32 i.size ++ i.blocks.toList.flatMap le32)))

/-- The inode at byte offset `off` of a block (`none`: its tag is no `InodeType`). -/
def inodeFrom (b : List UInt8) (off : Nat) : Option Inode :=
  (InodeType.ofTag (u16At b off)).map fun t =>
    { type_ := t
      device := u32At b (off + 4)
      major := u16At b (off + 8)
      minor := u16At b (off + 10)
      size := u32At b (off + 12)
      blocks := Vector.ofFn fun k => u32At b (off + 16 + 4 * k) }

/-- The block cast to a slice of inodes. -/
def inodesOf (b : List UInt8) : Option (List Inode) :=
  (List.range inodesPerBlock).mapM fun i => inodeFrom b (inodeSize * i)

/-- The block after an assignment to `inodes[i]` of the cast. -/
def setInode (b : List UInt8) (i : Nat) (inode : Inode) : List UInt8 :=
  splice b (inodeSize * i) (inodeBytes inode)

theorem InodeType.ofTag_tag (t : InodeType) : InodeType.ofTag t.tag = some t := by
  cases t <;> rfl

@[simp] theorem length_inodeBytes (i : Inode) : (inodeBytes i).length = 272 := by
  simp [inodeBytes, length_flatMap_le32, -List.length_flatMap, ndirect]

/-- **An inode stored in a buffer is the inode read back**, whatever the buffer held. -/
theorem inodeFrom_splice {b : List UInt8} {off : Nat} (inode : Inode)
    (h : off ≤ b.length) : inodeFrom (splice b off (inodeBytes inode)) off = some inode := by
  have hin : ∀ k n, k + n ≤ 272 →
      slice (splice b off (inodeBytes inode)) (off + k) n = slice (inodeBytes inode) k n :=
    fun k n hk => slice_splice_inner h (by rw [length_inodeBytes]; exact hk)
  have htag : slice (inodeBytes inode) 0 2 = le16 inode.type_.tag := by
    rw [inodeBytes, slice, List.drop_zero, List.append_assoc]
    exact List.take_left' (length_le16 _)
  have hdev : slice (inodeBytes inode) 4 4 = le32 inode.device := by
    rw [inodeBytes, slice_append (by simp)]
    exact List.take_left' (length_le32 _)
  have hrest : ∀ k n, slice (inodeBytes inode) (8 + k) n =
      slice ((le16 inode.major ++ le16 inode.minor) ++
        (le32 inode.size ++ inode.blocks.toList.flatMap le32)) k n := by
    intro k n
    rw [inodeBytes, ← List.append_assoc, slice, slice, ← List.drop_drop]
    rw [List.drop_left' (by simp)]
  have hmaj : slice (inodeBytes inode) 8 2 = le16 inode.major := by
    rw [hrest 0 2, slice, List.drop_zero, List.append_assoc]
    exact List.take_left' (length_le16 _)
  have hmin : slice (inodeBytes inode) 10 2 = le16 inode.minor := by
    rw [hrest 2 2, List.append_assoc, slice_append (by simp)]
    exact List.take_left' (length_le16 _)
  have hsize : slice (inodeBytes inode) 12 4 = le32 inode.size := by
    rw [hrest 4 4, slice_append (by simp)]
    exact List.take_left' (length_le32 _)
  have hblk : ∀ k : Fin 64,
      slice (inodeBytes inode) (16 + 4 * k) 4 = le32 (inode.blocks.get k) := by
    intro k
    have e : 16 + 4 * k.val = 8 + (8 + 4 * k.val) := by omega
    rw [e, hrest, ← List.append_assoc, slice, ← List.drop_drop, List.drop_left' (by simp)]
    exact slice_flatMap_le32 _ k.val (by simp)
  have h0 := hin 0 2 (by omega)
  rw [Nat.add_zero] at h0
  unfold inodeFrom u16At u32At
  rw [h0, htag, u16_leNat_le16, InodeType.ofTag_tag, hin 4 4 (by omega), hdev, u32_leNat_le32,
    hin 8 2 (by omega), hmaj, u16_leNat_le16, hin 10 2 (by omega), hmin, u16_leNat_le16,
    hin 12 4 (by omega), hsize, u32_leNat_le32]
  have hb : (Vector.ofFn fun k : Fin 64 => UInt32.ofNat (leNat
      (slice (splice b off (inodeBytes inode)) (off + 16 + 4 * k) 4))) = inode.blocks := by
    ext k hk
    have hk' : k < 64 := hk
    rw [Vector.getElem_ofFn, Nat.add_assoc, hin _ 4 (by simp only; omega), hblk ⟨k, hk⟩,
      u32_leNat_le32]
    rfl
  rw [hb]
  rfl

/-- The one inode of a block. -/
theorem inodesOf_eq (b : List UInt8) : inodesOf b = (inodeFrom b 0).map fun i => [i] := by
  have hr : List.range inodesPerBlock = [0] := rfl
  unfold inodesOf
  rw [hr]
  cases h : inodeFrom b 0 <;> simp [h]

theorem length_setInode {b : List UInt8} (inode : Inode) (h : b.length = 512) :
    (setInode b 0 inode).length = 512 := by
  rw [setInode, length_splice (by rw [length_inodeBytes]; omega), h]

/-! ## 4. Directory entries -/

/-- `size_of::<DirEntry>()`: a word, the name, and padding to a multiple of four. -/
abbrev direntSize : Nat := 260

/-- The bytes of a `DirEntry` whose name array starts with `name` and is zero after it. -/
def direntBytes (inumber : UInt32) (name : List UInt8) : List UInt8 :=
  le32 inumber ++ (name ++ List.replicate (dirnameSize - name.length) 0 ++ [0, 0])

/-- The `inumber` of a buffer cast to a `DirEntry`. -/
def entryInumber (b : List UInt8) : UInt32 := u32At b 0

/-- The name array of a buffer cast to a `DirEntry`. -/
def entryName (b : List UInt8) : List UInt8 := slice b 4 dirnameSize

theorem length_direntBytes (inumber : UInt32) {name : List UInt8} (h : name.length ≤ 254) :
    (direntBytes inumber name).length = 260 := by
  simp only [direntBytes, dirnameSize, List.length_append, length_le32, List.length_replicate,
    List.length_cons, List.length_nil]
  omega

end Sprocket.SimpleFs
