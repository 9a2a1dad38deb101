/-
  File:      Sprocket/Vm/Paging.lean
  Subject:   PAGE TABLES, as the source builds them (`vm.rs`) and as the hardware reads them.

  A page directory has 1024 entries, each of which is empty or points to a page table of 1024
  entries. `walkpgdir` finds the entry of a virtual address and makes the page table if there is
  none, `map_pages` fills the entries of a range, and `setupkvm` maps the four regions of `KMAP`.

  An entry is its bits. A page table is where its `Box` is, a virtual address; `boxAt i` is the
  address of the box that is made for entry `i` of the directory, should one be needed. An entry is
  filled at most once, so nothing is assumed about the order in which the boxes are made.

  The last section is not code: `translate` is the walk of the MMU over the two levels.
-/
import Mathlib.Logic.Function.Basic
import Sprocket.MemUtils

namespace Sprocket.Vm

open Prog

/-! ## 1. Entries -/

abbrev present : Nat := 1
abbrev writable : Nat := 2
abbrev user : Nat := 4

def contains (e flags : Nat) : Bool := e &&& flags == flags

/-- `Entry::address`: the low twelve bits are cleared. -/
def address (e : Nat) : Nat := e / 4096 * 4096

/-- The directory, and the page tables in memory. -/
structure Paging where
  pgdir : Nat → Nat
  tables : Nat → Option (Nat → Nat)

/-! ## 2. `walkpgdir` and `map_pages` -/

/-- A new page table in the box at address `pgtab`. -/
def newTable (pgtab : Nat) : Prog Paging Unit Unit :=
  modify fun s => { s with tables := Function.update s.tables pgtab (some fun _ => 0) }

/-- The entry for the page table at physical address `phys`. -/
def dirEntry (phys : Nat) : Nat := (0 ||| phys) ||| present ||| user ||| writable

/-- `walkpgdir`: the place of the entry, as a page table and an index. -/
def walkpgdir (boxAt : Nat → Nat) (va : Nat) (allocate : Bool) : Prog Paging Unit (Nat × Nat) := do
  let s ← get
  let i := pageDirIndex va
  if contains (s.pgdir i) present then do
    let pgtab ← toVirt (address (s.pgdir i))
    pure (pgtab, pageTableIndex va)
  else if allocate then do
    let pgtab := boxAt i
    newTable pgtab
    let phys ← toPhys pgtab
    modify fun s => { s with pgdir := Function.update s.pgdir i (dirEntry phys) }
    pure (pgtab, pageTableIndex va)
  else fail ()

/-- Read an entry through the reference `walkpgdir` returns. Where there is no page table this is
    a panic; the source would read whatever memory holds. -/
def readEntry (place : Nat × Nat) : Prog Paging Unit Nat := do
  let s ← get
  let tab ← ofOption (s.tables place.1)
  pure (tab place.2)

def writeEntry (place : Nat × Nat) (e : Nat) : Prog Paging Unit Unit := do
  let s ← get
  let tab ← ofOption (s.tables place.1)
  modify fun s =>
    { s with tables := Function.update s.tables place.1 (some (Function.update tab place.2 e)) }

/-- The entry `map_pages` writes. -/
def newEntry (permissions pa : Nat) : Nat := (permissions ||| present) ||| pa

/-- The body of the loop of `map_pages`. -/
def mapPage (boxAt : Nat → Nat) (permissions a pa : Nat) : Prog Paging Unit Unit := do
  let pte ← walkpgdir boxAt a true
  let e ← readEntry pte
  -- "remap failed"
  require (¬ contains e present)
  writeEntry pte (newEntry permissions pa)

/-- The loop of `map_pages`. The address moves on with a check, so the loop ends. -/
def mapLoop (boxAt : Nat → Nat) (permissions last a pa : Nat) : Prog Paging Unit Unit := do
  mapPage boxAt permissions a pa
  if a = last then pure ()
  else if h : a + pgsize < 2 ^ 32 then do
    let pa ← offset pa pgsize
    mapLoop boxAt permissions last (a + pgsize) pa
  else crash
termination_by 2 ^ 32 - a
decreasing_by
  simp only [pgsize] at h ⊢
  omega

def mapPages (boxAt : Nat → Nat) (va size pa permissions : Nat) : Prog Paging Unit Unit := do
  let a := pageRounddown va
  let n ← checkedSub size 1
  let e ← offset va (toSigned n)
  mapLoop boxAt permissions (pageRounddown e) a pa

/-! ## 3. `setupkvm` -/

structure Kmap where
  virt : Nat
  pStart : Nat
  pEnd : Nat
  perm : Nat

/-- `KMAP`, with `DATA_BEGIN` the address of the linker symbol `data`. -/
def kmap (dataBegin : Nat) : Prog Paging Unit (List Kmap) := do
  let link ← toPhys kernlink
  let linkEnd ← toPhys dataBegin
  let dataStart ← toPhys dataBegin
  pure [
    ⟨kernbase, 0, extmem, writable⟩,
    ⟨kernlink, link, linkEnd, 0⟩,
    ⟨dataBegin, dataStart, phystop, writable⟩,
    ⟨devspace, devspace, 0, writable⟩]

/-- The loop of `setupkvm`. -/
def mapAll (boxAt : Nat → Nat) : List Kmap → Prog Paging Unit Unit
  | [] => pure ()
  | k :: ks => do
    mapPages boxAt k.virt (addrSub k.pEnd k.pStart) k.pStart k.perm
    mapAll boxAt ks

/-- `setupkvm`: the new directory is the one of the state it leaves. -/
def setupkvm (boxAt : Nat → Nat) (dataBegin : Nat) : Prog Paging Unit Unit := do
  modify fun s => { s with pgdir := fun _ => 0 }
  let top ← toVirt phystop
  require (top ≤ devspace)
  let ks ← kmap dataBegin
  mapAll boxAt ks

/-! ## 4. The walk of the MMU -/

/-- Where the page table of directory entry `i` is. The directory has its physical address. -/
def Paging.tableAt (s : Paging) (i : Nat) : Nat := address (s.pgdir i) + kernbase

/-- The entry of page `n`, if both levels are present. -/
def Paging.leaf (s : Paging) (n : Nat) : Option Nat :=
  if contains (s.pgdir (n / 1024)) present then
    match s.tables (s.tableAt (n / 1024)) with
    | some tab => if contains (tab (n % 1024)) present then some (tab (n % 1024)) else none
    | none => none
  else none

/-- **The two-level walk**: the physical address, and whether it may be written. -/
def Paging.translate (s : Paging) (v : Nat) : Option (Nat × Bool) :=
  (s.leaf (v / 4096)).map fun e =>
    (address e + v % 4096, contains (s.pgdir (v / 4096 / 1024)) writable && contains e writable)

/-- The two-level walk with the flags of the leaf: the physical address, and the low twelve bits
    of the entry. -/
def Paging.walk (s : Paging) (v : Nat) : Option (Nat × Nat) :=
  (s.leaf (v / 4096)).map fun e => (address e + v % 4096, e % 4096)

end Sprocket.Vm
