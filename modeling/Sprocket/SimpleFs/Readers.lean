/-
  File:      Sprocket/SimpleFs/Readers.lean
  Subject:   THE CALLS THAT ONLY READ (`lib.rs`) take nothing from a disk but what its `read`
             returns.

  The kernel mounts a file system and never writes to it. `SameReads R` says of two disks, possibly
  of different types, that from states related by `R` a `read` of at most a block ends in the same
  way with the same bytes, and keeps the relation. Then so do `read_inode`, `read`, `dir_lookup`
  and `namex`, whatever the sectors hold: also the panics on a damaged disk are the same.
-/
import Sprocket.Lib.Agree
import Sprocket.SimpleFs.Ownership

namespace Sprocket.SimpleFs

open Bytes Prog

variable {S T : Type} [Disk S] [Disk T] {R : S → T → Prop}

/-- **A read of at most a block is the same on both disks.** -/
def SameReads (R : S → T → Prop) : Prop :=
  ∀ (dev s : UInt32) (buf : List UInt8), buf.length ≤ 512 →
    AgreeAt R buf (Disk.read (T := S) dev s) (Disk.read (T := T) dev s)

theorem agree_checkedAdd {σ τ ε : Type} {P : σ → τ → Prop} (a b : Nat) :
    Agree P (checkedAdd a b : Prog σ ε Nat) (checkedAdd a b) :=
  Agree.ite (agree_pure _) agree_crash

section Calls

variable (h : SameReads R)

include h

theorem diskRead_agree {buf : List UInt8} (hbuf : buf.length ≤ 512) (dev s : UInt32) :
    Agree R (diskRead (T := S) buf dev s) (diskRead (T := T) buf dev s) :=
  ((h dev s buf hbuf).mapErr FsError.diskFault).withLocal.bind fun r => agree_pure r.2

theorem diskRead_zero_agree (dev s : UInt32) :
    Agree R (diskRead (T := S) zeroBlock dev s) (diskRead (T := T) zeroBlock dev s) :=
  diskRead_agree h (Nat.le_of_eq length_zeroBlock) dev s

theorem readInode_agree (dev inum : UInt32) :
    Agree R (readInode (T := S) dev inum) (readInode (T := T) dev inum) := by
  unfold readInode
  refine (agree_require _).bind fun _ => (diskRead_zero_agree h dev _).bind fun sbBuf => ?_
  refine (agree_checkedAdd _ _).bind fun blockno => (diskRead_zero_agree h dev _).bind fun buf => ?_
  exact (agree_ofOption _).bind fun inodes => agree_ofOption _

omit h in
theorem bmap_agree {σ τ : Type} {P : σ → τ → Prop} (inode : Inode) (n : Nat) :
    Agree P (bmap inode n) (bmap inode n) :=
  (agree_ofOption _).bind fun _ => Agree.ite (agree_fail _) (agree_pure _)

theorem readChunks_agree (inode : Inode) : ∀ (bounds : List (Nat × Nat)) (offset : Nat),
    (∀ p ∈ bounds, p.2 - p.1 ≤ 512) →
    Agree (Both R) (readChunks (T := S) inode bounds offset)
      (readChunks (T := T) inode bounds offset)
  | [], _, _ => agree_pure ()
  | (lo, hi) :: rest, offset, hw => by
      have hlen : ∀ b : List UInt8, (slice b lo (hi - lo)).length ≤ 512 := fun b =>
        Nat.le_trans (List.length_take_le _ _) (hw (lo, hi) List.mem_cons_self)
      unfold readChunks
      refine (bmap_agree inode _).bind fun addr => ?_
      refine (agree_onPart fun b => (h inode.device addr _ (hlen b)).mapErr FsError.diskFault).bind
        fun _ => (agree_checkedAdd _ _).bind fun offset' => ?_
      exact readChunks_agree inode rest offset' fun p hp => hw p (List.mem_cons_of_mem _ hp)

theorem readBytes_agree (inode : Inode) (offset len : Nat) :
    Agree (Both R) (readBytes (T := S) inode offset len) (readBytes (T := T) inode offset len) := by
  unfold readBytes
  refine (bmap_agree inode _).bind fun addr => ?_
  refine (diskRead_zero_agree h inode.device addr).onFst.bind fun tmpBuf => ?_
  refine (agree_modifySnd fun b => splice b 0 ((tmpBuf.drop (offset % blockSize)).take len)).bind
    fun _ => (agree_checkedAdd _ _).bind fun offset' => ?_
  refine Agree.ite (agree_pure _) ((agree_require _).bind fun _ => ?_)
  exact (readChunks_agree h inode _ _ chunkBounds_width).bind fun _ => agree_pure _

theorem read_agree (inode : Inode) (offset : UInt32) :
    Agree (Both R) (read (T := S) inode offset) (read (T := T) inode offset) := by
  unfold read
  cases inode.type_ with
  | unused => exact agree_fail _
  | _ =>
    refine agree_readSnd.bind fun dst => Agree.ite (agree_fail _) ?_
    refine (agree_checkedAdd _ _).bind fun stop => (agree_require _).bind fun _ => ?_
    exact readBytes_agree h inode _ _

theorem readInto_agree (inode : Inode) (buffer : List UInt8) (offset : UInt32) :
    Agree R (readInto (T := S) inode buffer offset) (readInto (T := T) inode buffer offset) :=
  ((read_agree h inode offset).agreeAt buffer).withLocal

theorem dirLookupIn_agree (dir : Inode) (name : List UInt8) : ∀ offsets : List Nat,
    Agree R (dirLookupIn (T := S) dir name offsets) (dirLookupIn (T := T) dir name offsets)
  | [] => agree_fail _
  | offset :: rest => by
      unfold dirLookupIn
      refine (readInto_agree h dir _ _).bind fun r => ?_
      refine Agree.ite (dirLookupIn_agree dir name rest) (Agree.ite (agree_pure _) ?_)
      exact dirLookupIn_agree dir name rest

theorem dirLookup_agree (dir : Inode) (name : List UInt8) :
    Agree R (dirLookup (T := S) dir name) (dirLookup (T := T) dir name) :=
  (agree_require _).bind fun _ => dirLookupIn_agree h dir name _

/-- **A path is resolved in the same way.** -/
theorem namex_agree (path name : List UInt8) :
    Agree R (namex (T := S) path name) (namex (T := T) path name) := by
  unfold namex
  refine Agree.ite ((readInode_agree h rootDev rootInum).bind fun inode => ?_) (agree_fail _)
  exact (dirLookup_agree h inode name).bind fun r => agree_pure r.1

end Calls

end Sprocket.SimpleFs
