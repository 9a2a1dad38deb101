/-
  File:      Sprocket/Kalloc/Allocator.lean
  Subject:   THE KERNEL ALLOCATOR, as the source computes it (`kalloc/src/{lib,allocator}.rs`).

  Free memory is a linked list of `Range` headers, each at the start of the free pages it stands
  for; `size` counts the pages behind the header page. The list starts at a sentinel that lives in
  the allocator itself. Here the chain of `next` pointers is a list of nodes, each with its own
  address: a header is only ever written to memory that is not in use, so no node is overwritten.

  Every assertion and every checked operation of the source is a panic here, also those of
  `verify`, which walks the whole list before each call. The `Mutex` around the allocator makes the
  calls atomic.
-/
import Sprocket.MemUtils

namespace Sprocket.Kalloc

open Prog

/-- A header: the address it is at, and the number of pages behind its own. -/
structure Range where
  addr : Nat
  size : Nat
  deriving DecidableEq, Repr

structure Allocator where
  /-- The sentinel. -/
  start : Range
  /-- The nodes behind the sentinel, in the order of the `next` pointers. -/
  ranges : List Range
  length : Nat
  deriving DecidableEq, Repr

structure Layout where
  size : Nat
  align : Nat
  deriving DecidableEq, Repr

inductive AllocErr where
  | exhausted (request : Layout)
  deriving DecidableEq, Repr

variable {σ ε : Type}

/-! ## 1. Ranges -/

/-- `Range::offset`: the address `pages` pages behind the header. -/
def Range.offset (r : Range) (pages : Int) : Prog σ ε Nat := do
  let bytes ← checkedInt (pages * pgsize)
  pure (ptrOffset r.addr bytes)

def Range.endAddr (r : Range) : Prog σ ε Nat := do
  let size ← checkedInt (toSigned r.size + 1)
  r.offset size

/-- `allocate_from_range`: the last pages of the range, which keeps its header. -/
def Range.allocateFromRange (r : Range) (numPages : Nat) : Prog σ ε (Nat × Range) := do
  require (numPages ≤ r.size)
  let s ← checkedAdd r.size 1
  let d ← checkedSub s numPages
  let allocation ← r.offset (toSigned d)
  let size ← checkedSub r.size numPages
  pure (allocation, { r with size := size })

/-! ## 2. `verify` -/

/-- The loop of `verify`: the number of pages of the nodes. -/
def verifyFrom (kend : Nat) : List Range → Nat → Prog σ ε Nat
  | [], size => pure size
  | n :: rest, size => do
    require (kend < n.addr)
    let phys ← toPhys n.addr
    require (phys < phystop)
    let pages ← checkedAdd n.size 1
    let size ← checkedAdd size pages
    match rest with
    | [] => pure size
    | s :: _ => do
      require (n.addr < s.addr)
      let e ← n.endAddr
      require (e < s.addr)
      verifyFrom kend rest size

def verify (kend : Nat) : Prog Allocator ε Unit := do
  let a ← get
  let size ← verifyFrom kend a.ranges 0
  require (size = a.length)

/-! ## 3. Freeing -/

/-- `free_range` merges the new node with the next one if it ends where that one begins. -/
def mergeNext (new : Range) : List Range → Prog σ ε (Range × List Range)
  | [] => pure (new, [])
  | n :: rest => do
    let e ← new.endAddr
    if e = n.addr then do
      let pages ← checkedAdd n.size 1
      let size ← checkedAdd new.size pages
      pure ({ new with size := size }, rest)
    else pure (new, n :: rest)

/-- `free_range` merges the new node into `prev` if that one ends where the new one begins. -/
def mergePrev (prev new : Range) (rest : List Range) : Prog σ ε (Range × List Range) := do
  let e ← prev.endAddr
  if e = new.addr then do
    let pages ← checkedAdd new.size 1
    let size ← checkedAdd prev.size pages
    pure ({ prev with size := size }, rest)
  else pure (prev, new :: rest)

/-- The end of `free_range`, once the place behind `prev` is found. -/
def insertHere (new prev : Range) (next : List Range) : Prog σ ε (Range × List Range) := do
  let m ← mergeNext new next
  mergePrev prev m.1 m.2

/-- The loop of `free_range`: the node `prev` and the nodes behind it, afterwards. -/
def insertFrom (new : Range) : Range → List Range → Prog σ ε (Range × List Range)
  | prev, [] => insertHere new prev []
  | prev, n :: rest =>
    if new.addr < n.addr ∧ prev.addr < new.addr then insertHere new prev (n :: rest)
    else do
      let r ← insertFrom new n rest
      pure (prev, r.1 :: r.2)

def freeRange (kend vstart vend : Nat) : Prog Allocator ε Unit := do
  verify kend
  require (vstart < vend)
  require (isPageAligned vstart)
  require (isPageAligned vend)
  let first ← pageno kend vstart
  let last ← pageno kend vend
  let size ← checkedSub (last - first) 1
  let pages ← checkedAdd size 1
  let a ← get
  let length ← checkedAdd a.length pages
  let r ← insertFrom { addr := vstart, size := size } a.start a.ranges
  modify fun _ => { start := r.1, ranges := r.2, length := length }

/-! ## 4. Allocating -/

def sizeToPages (size : Nat) : Prog σ ε Nat := do
  let x ← checkedAdd pgsize size
  let y ← checkedSub x 1
  pure (y / pgsize)

/-- The loop of `allocate` over the nodes: the allocation, and the nodes afterwards (`none`: no
    node is large enough). -/
def allocateFrom (requested : Nat) : List Range → Prog σ ε (Option (Nat × List Range))
  | [] => pure none
  | n :: rest =>
    if requested ≤ n.size then do
      let r ← n.allocateFromRange requested
      pure (some (r.1, r.2 :: rest))
    else do
      let pages ← checkedAdd n.size 1
      if pages = requested then pure (some (n.addr, rest))
      else do
        let r ← allocateFrom requested rest
        pure (r.map fun p => (p.1, n :: p.2))

/-- `allocate`; its error carries a text that no caller reads. -/
def allocate (kend size : Nat) : Prog Allocator Unit Nat := do
  verify kend
  let requested ← sizeToPages size
  let a ← get
  let r ← allocateFrom requested a.ranges
  match r with
  | none => fail ()
  | some (p, ranges) => do
    let length ← checkedSub a.length requested
    let _ ← modify fun a => { a with ranges := ranges, length := length }
    pure p

/-! ## 5. `RangeAlloc` -/

def init (kend vstart vend : Nat) : Prog Allocator AllocErr Unit := freeRange kend vstart vend

def alloc (kend : Nat) (layout : Layout) : Prog Allocator AllocErr Nat := do
  require (layout.align ≤ pgsize)
  mapErr (fun _ => .exhausted layout) (allocate kend layout.size)

def dealloc (kend ptr : Nat) (layout : Layout) : Prog Allocator AllocErr Unit := do
  let numPages ← sizeToPages layout.size
  let bytes ← checkedMul numPages pgsize
  let endAddr := ptrOffset ptr (toSigned bytes)
  let d ← checkedSub endAddr ptr
  require (d = bytes)
  let last ← pageno kend endAddr
  let first ← pageno kend ptr
  let n ← checkedSub last first
  require (n = numPages)
  freeRange kend ptr endAddr

/-- `usable_size`: the least and the greatest size an allocation may be given back with. -/
def usableSize (layout : Layout) : Prog σ ε (Nat × Nat) := do
  let size := layout.size
  let numPages ← sizeToPages size
  let bytes ← checkedMul numPages pgsize
  pure (size, bytes)

/-- `RANGE_ALLOC_INIT`, with the sentinel at address `addr`. -/
def rangeAllocInit (addr : Nat) : Allocator where
  start := { addr := addr, size := 0 }
  ranges := []
  length := 0

end Sprocket.Kalloc
