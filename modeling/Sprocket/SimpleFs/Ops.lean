/-
  File:      Sprocket/SimpleFs/Ops.lean
  Subject:   THE OPERATIONS OF simple_fs, as the source computes them.

  `FileSystem<T>` owns a disk `T`; here every method is code over the disk's state
  (`Prog T FsError`). A method that takes an inode by `&mut` is code over the disk and the inode
  (`Prog (T × Inode) FsError`), so that an error keeps the blocks the inode has gained; `read`,
  which fills a caller's buffer, is code over the disk and the buffer.

  The kernel is built for a 32-bit target with overflow checks: `u32` and `usize` arithmetic that
  overflows, a slice bound past the end and an index out of range all panic (`checkedAdd`,
  `Prog.require`, `Prog.ofOption`). Integers are natural numbers inside a method and `UInt32`
  where they are stored.
-/
import Sprocket.Lib.Word
import Sprocket.SimpleFs.Layout

namespace Sprocket.SimpleFs

open Bytes Prog

/-! ## 1. Disks and errors -/

inductive DiskError where
  | ioError
  deriving DecidableEq, Repr

inductive FsError where
  | exhaustedBlocks
  | exhaustedInodes
  | notDir
  | eof
  | entryExists
  | notFound
  | readTooLarge
  | writeTooLarge
  | blockNotMapped (blockno : Nat)
  | typeMismatch
  | diskFault (e : DiskError)
  deriving DecidableEq, Repr

/-- The `Disk` trait. A read fills the caller's buffer; it may also move the device's own state
    (registers, a file cursor), so it is code over both. A slice keeps its length. -/
class Disk (T : Type) where
  read (device sector : UInt32) : Prog (T × List UInt8) DiskError Unit
  write (buffer : List UInt8) (device sector : UInt32) : Prog T DiskError Nat
  length_read (device sector : UInt32) (s : T × List UInt8) :
    (read device sector s).2.2.length = s.2.length

variable {σ ε T : Type}

/-- `self.disk.read(&mut buffer, ..)?` on a local buffer: the buffer filled. -/
def diskRead [Disk T] (buffer : List UInt8) (device sector : UInt32) :
    Prog T FsError (List UInt8) := do
  let r ← withLocal buffer (mapErr .diskFault (Disk.read device sector))
  pure r.2

/-- `self.disk.write(&buffer, ..)?`. -/
def diskWrite [Disk T] (buffer : List UInt8) (device sector : UInt32) : Prog T FsError Nat :=
  mapErr .diskFault (Disk.write buffer device sector)

/-- A zeroed block. -/
def zeroBlock : List UInt8 := List.replicate blockSize 0

/-! ## 2. The inode table -/

/-- `IBLOCK!`: the block an inode lives in. -/
def iblock (inum : Nat) (sb : SuperBlock) : Prog σ ε Nat :=
  checkedAdd sb.inodeStart.toNat (inum / inodesPerBlock)

/-- The scan of `alloc_inode` over the blocks of the table, all read into one buffer. -/
def allocInodeIn [Disk T] (device : UInt32) (inode : Inode) (inodeStart : Nat) :
    List Nat → List UInt8 → Prog T FsError UInt32
  | [], _ => fail .exhaustedInodes
  | blockno :: rest, block => do
    let block ← diskRead block device (UInt32.ofNat blockno)
    let inodes ← ofOption (inodesOf block)
    match inodes.findIdx? fun y => y.type_ == .unused with
    | some i => do
      let _ ← diskWrite (setInode block i inode) device (UInt32.ofNat blockno)
      pure (UInt32.ofNat ((blockno - inodeStart) * inodesPerBlock + i))
    | none => allocInodeIn device inode inodeStart rest block

/-- The block numbers of a Rust range `lo..hi`. -/
def blockRange (lo hi : Nat) : List Nat := List.range' lo (hi - lo)

def allocInode [Disk T] (device : UInt32) (inode : Inode) : Prog T FsError UInt32 := do
  require (inode.type_ ≠ .unused)
  let sbBuf ← diskRead zeroBlock device superblockAddr
  let start := (bufferToSb sbBuf).inodeStart.toNat
  allocInodeIn device inode start (blockRange start (numInodes / inodesPerBlock + 1)) zeroBlock

def readInode [Disk T] (device inum : UInt32) : Prog T FsError Inode := do
  require (inum.toNat ≤ numInodes)
  let sbBuf ← diskRead zeroBlock device superblockAddr
  let blockno ← iblock inum.toNat (bufferToSb sbBuf)
  let buf ← diskRead zeroBlock device (UInt32.ofNat blockno)
  let inodes ← ofOption (inodesOf buf)
  ofOption inodes[inum.toNat % inodesPerBlock]?

def updateInode [Disk T] (inum : UInt32) (inode : Inode) : Prog T FsError Unit := do
  let sbBuf ← diskRead zeroBlock inode.device superblockAddr
  let blockno ← iblock inum.toNat (bufferToSb sbBuf)
  let buf ← diskRead zeroBlock inode.device (UInt32.ofNat blockno)
  let buf := setInode buf (inum.toNat % inodesPerBlock) inode
  let _ ← diskWrite buf inode.device (UInt32.ofNat blockno)
  pure ()

/-! ## 3. The freelist -/

/-- `rposition`: the last index whose entry satisfies `p`. -/
def rposition (p : UInt32 → Bool) (l : List UInt32) : Option Nat :=
  (l.reverse.findIdx? p).map fun i => l.length - 1 - i

/-- A word of a block seen as an array of block addresses. -/
def wordAt (block : List UInt8) (i : Nat) : Prog σ ε UInt32 := ofOption (words block)[i]?

def allocBlock [Disk T] (device : UInt32) : Prog T FsError UInt32 := do
  let sbBlock ← diskRead zeroBlock device superblockAddr
  let headAddr := (bufferToSb sbBlock).freelistStart
  if headAddr = unusedBlockaddr then fail .exhaustedBlocks
  else do
    let block ← diskRead sbBlock device headAddr
    -- the index is small by one: word 0 points to the next block of the list
    match rposition (· != unusedBlockaddr) ((words block).drop 1) with
    | some index => do
      let newBlockno ← wordAt block (index + 1)
      let _ ← diskWrite (setWord block (index + 1) unusedBlockaddr) device headAddr
      let _ ← diskWrite zeroBlock device newBlockno
      pure newBlockno
    | none => do
      -- the head of the freelist is the block that is allocated
      let newHead ← wordAt block 0
      let sbBuf ← diskRead zeroBlock device superblockAddr
      let _ ← diskWrite zeroBlock device headAddr
      let _ ← diskWrite (setFreelistStart sbBuf newHead) device superblockAddr
      pure headAddr

def freeBlock [Disk T] (device blockno : UInt32) : Prog T FsError Unit := do
  let sbBuf ← diskRead zeroBlock device superblockAddr
  let headAddr := (bufferToSb sbBuf).freelistStart
  if headAddr = unusedBlockaddr then do
    let _ ← diskWrite (setFreelistStart sbBuf blockno) device superblockAddr
    let _ ← diskWrite zeroBlock device blockno
    pure ()
  else do
    let buffer ← diskRead zeroBlock device headAddr
    match ((words buffer).drop 1).findIdx? (· == unusedBlockaddr) with
    | some p => do
      let _ ← diskWrite (setWord buffer (p + 1) blockno) device headAddr
      pure ()
    | none => do
      -- no room in the head: the freed block becomes the new head
      let _ ← diskWrite (setFreelistStart sbBuf blockno) device superblockAddr
      let _ ← diskWrite (setWord zeroBlock 0 headAddr) device blockno
      pure ()

/-! ## 4. Files -/

/-- The inode a method holds by `&mut`. -/
def theInode : Prog (T × Inode) FsError Inode := fun s => (.ok s.2, s)

/-- Assign to the inode. -/
def setTheInode (f : Inode → Inode) : Prog (T × Inode) FsError Unit :=
  modify fun s => (s.1, f s.2)

def bmapOrAlloc [Disk T] (blockno : Nat) : Prog (T × Inode) FsError UInt32 := do
  let inode ← theInode
  let addr ← ofOption inode.blocks[blockno]?
  let _ ← if addr = unusedBlockaddr then do
      let b ← onFst (allocBlock inode.device)
      setTheInode fun i => { i with blocks := i.blocks.setIfInBounds blockno b }
    else pure ()
  let inode ← theInode
  ofOption inode.blocks[blockno]?

def bmap (inode : Inode) (blockno : Nat) : Prog σ FsError UInt32 := do
  let addr ← ofOption inode.blocks[blockno]?
  if addr = unusedBlockaddr then fail (.blockNotMapped blockno) else pure addr

/-- The bounds of the chunks of `buf[lo..hi]` (`chunks`, `chunks_mut`): full blocks and a last,
    shorter one. -/
def chunkBounds (lo hi : Nat) : List (Nat × Nat) :=
  if lo < hi then (lo, min (lo + blockSize) hi) :: chunkBounds (lo + blockSize) hi else []
termination_by hi - lo
decreasing_by simp only [blockSize]; omega

/-- The caller's buffer. -/
def theBuffer : Prog (T × List UInt8) FsError (List UInt8) := fun s => (.ok s.2, s)

/-- The loop of `read` over the blocks after the first: each chunk is read in place. -/
def readChunks [Disk T] (inode : Inode) : List (Nat × Nat) → Nat →
    Prog (T × List UInt8) FsError Unit
  | [], _ => pure ()
  | (lo, hi) :: rest, offset => do
    let blockaddr ← bmap inode (offset / blockSize)
    let _ ← onPart (fun b => slice b lo (hi - lo)) (fun b c => splice b lo c)
      (mapErr .diskFault (Disk.read inode.device blockaddr))
    let offset ← checkedAdd offset (hi - lo)
    readChunks inode rest offset

/-- `read`, on a file or a directory: `len` bytes of the buffer are to be filled. -/
def readBytes [Disk T] (inode : Inode) (offset len : Nat) : Prog (T × List UInt8) FsError Nat := do
  let blockaddr ← bmap inode (offset / blockSize)
  let tmpBuf ← onFst (diskRead zeroBlock inode.device blockaddr)
  -- the first block is copied from the offset on, into what there is of the buffer
  let tail := tmpBuf.drop (offset % blockSize)
  let _ ← modify fun s => (s.1, splice s.2 0 (tail.take len))
  let offset ← checkedAdd offset tail.length
  if len ≤ offset then pure len
  else do
    require (blockSize + offset % blockSize ≤ len)
    let _ ← readChunks inode (chunkBounds (blockSize + offset % blockSize) len) offset
    pure len

def read [Disk T] (inode : Inode) (offset : UInt32) : Prog (T × List UInt8) FsError Nat :=
  match inode.type_ with
  | .file | .directory => do
    let dst ← theBuffer
    let len := dst.length % 2 ^ 32
    let offset := offset.toNat
    let size := inode.size.toNat
    if size < offset ∨ (offset + len) % 2 ^ 32 < offset then fail .readTooLarge
    else do
      let stop ← checkedAdd offset len
      let len := if size < stop then size - offset else len
      require (len ≤ dst.length)
      readBytes inode offset len
  | .unused => fail .typeMismatch

/-- `read` into a local buffer: the number of bytes and the buffer filled. -/
def readInto [Disk T] (inode : Inode) (buffer : List UInt8) (offset : UInt32) :
    Prog T FsError (Nat × List UInt8) :=
  withLocal buffer (read inode offset)

/-- The loop of `write` over the blocks after the first: the offset behind the last one. -/
def writeChunks [Disk T] (src : List UInt8) : List (Nat × Nat) → Nat →
    Prog (T × Inode) FsError Nat
  | [], offset => pure offset
  | (lo, hi) :: rest, offset => do
    let blockaddr ← bmapOrAlloc (offset / blockSize)
    let inode ← theInode
    let n ← onFst (diskWrite (slice src lo (hi - lo)) inode.device blockaddr)
    let offset ← checkedAdd offset (n % 2 ^ 32)
    writeChunks src rest offset

/-- The first block of `write`: the number of bytes the disk wrote. -/
def writeFirst [Disk T] (src : List UInt8) (offset : Nat) (blockaddr : UInt32) :
    Prog (T × Inode) FsError Nat := do
  let inode ← theInode
  if offset % blockSize ≠ 0 then do
    let tmpBuf ← onFst (diskRead zeroBlock inode.device blockaddr)
    let tmpBuf := splice tmpBuf (offset % blockSize) (src.take (blockSize - offset % blockSize))
    onFst (diskWrite tmpBuf inode.device blockaddr)
  else
    onFst (diskWrite (src.take (min blockSize src.length)) inode.device blockaddr)

/-- `write`, on a file or a directory, after the checks on the offset. -/
def writeBytes [Disk T] (src : List UInt8) (offset : Nat) : Prog (T × Inode) FsError Nat := do
  let blockaddr ← bmapOrAlloc (offset / blockSize)
  let n ← writeFirst src offset blockaddr
  let offset ← checkedAdd offset (n % 2 ^ 32)
  let inode ← theInode
  if src.length % 2 ^ 32 ≤ offset then do
    let _ ← if inode.size.toNat < offset then do
        let size ← checkedAdd inode.size.toNat (src.length % 2 ^ 32)
        setTheInode fun i => { i with size := UInt32.ofNat size }
      else pure ()
    pure src.length
  else do
    require (offset ≤ src.length)
    let offset ← writeChunks src (chunkBounds offset src.length) offset
    let inode ← theInode
    let _ ← if inode.size.toNat < offset then
        setTheInode fun i => { i with size := UInt32.ofNat offset }
      else pure ()
    pure (src.length % 2 ^ 32)

def write [Disk T] (src : List UInt8) (offset : UInt32) : Prog (T × Inode) FsError Nat := do
  let inode ← theInode
  match inode.type_ with
  | .file | .directory => do
    let len := src.length % 2 ^ 32
    let offset := offset.toNat
    if (offset + len) % 2 ^ 32 < offset ∨ inode.size.toNat < offset then fail .writeTooLarge
    else do
      let stop ← checkedAdd len offset
      if maxFile * blockSize < stop then fail .writeTooLarge
      else writeBytes src offset
  | .unused => fail .typeMismatch

/-! ## 5. Directories -/

/-- The offsets of the slots of a directory (`step_by` over `0..dir.size`). -/
def slotOffsets (size : Nat) : List Nat :=
  (List.range ((size + direntSize - 1) / direntSize)).map fun k => direntSize * k

/-- The name of an entry is `name`: equal lengths up to the first NUL, and equal bytes. -/
def nameMatches (entry : List UInt8) (name : List UInt8) : Bool :=
  let entryLen := (entryName entry).findIdx (· == 0)
  entryLen == name.length && (((entryName entry).take entryLen).zip name).all fun p => p.1 == p.2

/-- The scan of `dir_lookup`. -/
def dirLookupIn [Disk T] (dir : Inode) (name : List UInt8) : List Nat →
    Prog T FsError (UInt32 × Nat)
  | [] => fail .notFound
  | offset :: rest => do
    let r ← readInto dir (List.replicate direntSize 0) (UInt32.ofNat offset)
    if entryInumber r.2 = unusedInum then dirLookupIn dir name rest
    else if nameMatches r.2 name then pure (entryInumber r.2, offset)
    else dirLookupIn dir name rest

def dirLookup [Disk T] (dir : Inode) (name : List UInt8) : Prog T FsError (UInt32 × Nat) := do
  require (dir.type_ = .directory)
  dirLookupIn dir name (slotOffsets dir.size.toNat)

/-- The search of `dir_add` for an empty slot; the new entry is appended when there is none. -/
def dirPlace [Disk T] (newDirent : List UInt8) : List Nat → Prog (T × Inode) FsError Unit
  | [] => do
    let dir ← theInode
    let _ ← write newDirent dir.size
    pure ()
  | offset :: rest => do
    let dir ← theInode
    let r ← onFst (readInto dir (List.replicate direntSize 0) (UInt32.ofNat offset))
    require (r.1 = direntSize)
    if entryInumber r.2 = unusedInum then do
      let _ ← write newDirent (UInt32.ofNat offset)
      pure ()
    else dirPlace newDirent rest

def dirAdd [Disk T] (name : List UInt8) (target : UInt32) : Prog (T × Inode) FsError Unit := do
  let dir ← theInode
  let found ← onFst (attempt (dirLookup dir name))
  match found with
  | .ok _ => fail .entryExists
  | .error _ => do
    require (name.length ≤ dirnameSize)
    dirPlace (direntBytes target name) (slotOffsets dir.size.toNat)

/-- `namex`: the inode number of a name in the root directory. -/
def namex [Disk T] (path name : List UInt8) : Prog T FsError UInt32 := do
  if path = [47] then do
    let inode ← readInode rootDev rootInum
    let r ← dirLookup inode name
    pure r.1
  else fail .notFound

end Sprocket.SimpleFs
