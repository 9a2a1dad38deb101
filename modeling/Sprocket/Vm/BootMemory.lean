/-
  File:      Sprocket/Vm/BootMemory.lean
  Subject:   THE MEMORY OF THE KERNEL AT BOOT: from `ENTRYPGDIR` to the kernel's own page directory.

  `entry.S` turns paging on with `ENTRYPGDIR`, which maps the first four megabytes twice with pages
  of four megabytes. `main` then gives the allocator the memory behind the kernel up to that bound,
  `kvmalloc` builds the kernel's directory in it and loads it, and only then the allocator gets the
  rest of the memory.

  The order matters: the nodes of the free list, the directory and the page tables are memory, and
  each has to be mapped when it is written. `bootMemory_ready` says that it is, exactly when there
  are 65 pages from the start of the heap, `page_roundup(end + PGSIZE)`, to the bound of
  `ENTRYPGDIR`, and what the memory looks like afterwards. With fewer the kernel stops: an empty
  region fails an assertion of the allocator, and a box that finds no page aborts. Both are a panic
  here.
-/
import Sprocket.Vm.Heap

namespace Sprocket.Vm

open Prog Kalloc Heap

/-! ## 1. The code -/

/-- `PTE_PS`: the entry of the directory is a page of four megabytes. -/
abbrev pageSize : Nat := 0x080

/-- `ENTRYPGDIR`. Its second entry is the one of `KERNBASE`. -/
def entryPgdir (i : Nat) : Nat := if i = 0 ∨ i = 512 then present ||| writable ||| pageSize else 0

/-- `KPGDIR`, and the register with the physical address of the directory in force. -/
structure Regs where
  kpgdir : Nat
  cr3 : Nat

/-- The heap and the page tables, and the registers. -/
abbrev Machine : Type := (Allocator × Paging) × Regs

section Code

variable (kend : Nat)

/-- `ALLOCATOR.init` -/
def heapInit (vstart vend : Nat) : Prog Machine Unit Unit :=
  unwrap (onFst (onFst (init kend vstart vend)))

def switchkvm : Prog Machine Unit Unit := do
  let m ← get
  let phys ← toPhys m.2.kpgdir
  modify fun m => (m.1, { m.2 with cr3 := phys })

def kvmalloc (dataBegin : Nat) : Prog Machine Unit Unit := do
  let pgdir ← unwrap (onFst (Heap.setupkvm kend dataBegin))
  modify fun m => (m.1, { m.2 with kpgdir := pgdir })
  switchkvm

/-- What `main` does to the memory, in its order. -/
def bootMemory (dataBegin : Nat) : Prog Machine Unit Unit := do
  let behind ← checkedAdd kend pgsize
  let heapStart ← pageRoundup behind
  let heapEnd ← toVirt (4 * 1024 * 1024)
  heapInit kend heapStart heapEnd
  kvmalloc kend dataBegin
  let rest ← toVirt (4 * 1024 * 1024)
  let top ← toVirt phystop
  heapInit kend rest top

end Code

/-! ## 2. The directory in force -/

/-- The walk of the MMU where pages of four megabytes are on (`CR4_PSE`). -/
def Paging.translatePse (s : Paging) (v : Nat) : Option (Nat × Bool) :=
  if contains (s.pgdir (v / 4194304)) present ∧ contains (s.pgdir (v / 4194304)) pageSize then
    some (s.pgdir (v / 4194304) / 4194304 * 4194304 + v % 4194304,
      contains (s.pgdir (v / 4194304)) writable)
  else s.translate v

/-- The directory `cr3` points to: `ENTRYPGDIR`, at the address `entryAt`, or the one of
    `KPGDIR`. -/
def Machine.directory (entryAt : Nat) (m : Machine) : Option Paging :=
  if m.2.cr3 + kernbase = entryAt then some ⟨entryPgdir, m.1.2.tables⟩
  else if m.2.cr3 + kernbase = m.2.kpgdir then some m.1.2
  else none

def Machine.translate (entryAt : Nat) (m : Machine) (v : Nat) : Option (Nat × Bool) :=
  (Machine.directory entryAt m).bind fun s => s.translatePse v

/-- What `ENTRYPGDIR` maps: the first four megabytes, at zero and at `KERNBASE`. -/
def entrySpace (v : Nat) : Option (Nat × Bool) :=
  if v < 0x400000 then some (v, true)
  else if kernbase ≤ v ∧ v < kernbase + 0x400000 then some (v - kernbase, true)
  else none

/-- A directory whose entries have no flags but the low three has no large pages. -/
theorem translatePse_eq {s : Paging} (h : ∀ i, Has s i → s.pgdir i % 4096 = 7) (v : Nat) :
    s.translatePse v = s.translate v := by
  refine if_neg fun hboth => ?_
  have hbit := hboth.2
  rw [contains_mod (by decide), h _ hboth.1] at hbit
  exact absurd hbit (by decide)

theorem translatePse_entry (tables : Nat → Option (Nat → Nat)) {v : Nat} (hv : v < 2 ^ 32) :
    (Paging.mk entryPgdir tables).translatePse v = entrySpace v := by
  have hpage : v / 4096 / 1024 = v / 4194304 := Nat.div_div_eq_div_mul ..
  unfold Paging.translatePse entrySpace
  simp only [kernbase]
  by_cases hin : v / 4194304 = 0 ∨ v / 4194304 = 512
  · have hentry : entryPgdir (v / 4194304) = 0x83 := if_pos hin
    rw [hentry, if_pos (by decide)]
    have hw : contains 0x83 writable = true := by decide
    rw [hw]
    rcases hin with h | h
    · have e : 0x83 / 4194304 * 4194304 + v % 4194304 = v := by omega
      rw [if_pos (by omega), e]
    · have e : 0x83 / 4194304 * 4194304 + v % 4194304 = v - 0x80000000 := by omega
      rw [if_neg (by omega), if_pos (by omega), e]
  · have hentry : entryPgdir (v / 4194304) = 0 := if_neg hin
    have hleaf : (Paging.mk entryPgdir tables).leaf (v / 4096) = none := by
      refine if_neg ?_
      show ¬ contains (entryPgdir (v / 4096 / 1024)) present = true
      rw [hpage, hentry]
      decide
    rw [hentry, if_neg (by decide), if_neg (by omega), if_neg (by omega), Paging.translate, hleaf]
    rfl

/-! ## 3. The steps of `main` -/

section Steps

variable {kend : Nat} {a : Allocator}

/-- An empty region is refused. -/
theorem init_refuses (h : FreeInv kend a) {lo hi : Nat} (hle : hi ≤ lo) :
    init kend lo hi a = (.panic, a) := by
  refine gives_id_iff.mp ?_
  unfold init freeRange
  exact (verify_gives h).then ((gives_require_not (Nat.not_lt_of_le hle)).then_panic)

theorem heapInit_of {lo hi : Nat} {a' : Allocator} {s : Paging} {r : Regs}
    (h : init kend lo hi a = (.ok (), a')) :
    heapInit kend lo hi ((a, s), r) = (.ok (), ((a', s), r)) := by
  simp only [heapInit, unwrap, onFst, h]

theorem heapInit_of_panic {lo hi : Nat} {s : Paging} {r : Regs}
    (h : init kend lo hi a = (.panic, a)) :
    heapInit kend lo hi ((a, s), r) = (.panic, ((a, s), r)) := by
  simp only [heapInit, unwrap, onFst, h]

/-- The new directory is in force. -/
theorem kvmalloc_of {dataBegin p : Nat} {w : Allocator × Paging} {s : Paging} {r : Regs}
    (h : Heap.setupkvm kend dataBegin (a, s) = (.ok p, w)) (hk : kernbase ≤ p) :
    kvmalloc kend dataBegin ((a, s), r) = (.ok (), (w, ⟨p, p - kernbase⟩)) := by
  have hsetup : Gives id (unwrap (onFst (Heap.setupkvm kend dataBegin)) : Prog Machine Unit Nat)
      ((a, s), r) (.ok p) (w, r) := by
    refine gives_id_iff.mpr ?_
    simp only [unwrap, onFst, h]
  refine gives_id_iff.mp (hsetup.then (Gives.then (gives_modify _) ?_))
  exact gives_get.then (Gives.then (gives_checkedSub hk) (gives_modify _))

theorem kvmalloc_of_panic {dataBegin : Nat} {w : Allocator × Paging} {s : Paging} {r : Regs}
    (h : Heap.setupkvm kend dataBegin (a, s) = (.panic, w)) :
    kvmalloc kend dataBegin ((a, s), r) = (.panic, (w, r)) := by
  refine gives_id_iff.mp (Gives.then_panic (gives_id_iff.mpr ?_))
  simp only [unwrap, onFst, h]

end Steps

/-! ## 4. The memory after boot -/

/-- The machine `main` starts with: an empty free list, and `ENTRYPGDIR` in force. The contents of
    the memory are arbitrary. -/
def Machine.start (allocAt entryAt : Nat) (s : Paging) : Machine :=
  ((rangeAllocInit allocAt, s), ⟨0, entryAt - kernbase⟩)

/-- **What holds when the memory is set up.** -/
structure Ready (kend dataBegin entryAt : Nat) (before after : Machine) : Prop where
  /-- The kernel's address space is in force. -/
  space : ∀ v < 2 ^ 32, after.translate entryAt v = kernelSpace dataBegin v
  /-- The memory of the kernel as `ENTRYPGDIR` had it is where it was. -/
  same : ∀ v, kernbase ≤ v → v < kernbase + 0x400000 →
    (before.translate entryAt v).map Prod.fst = (after.translate entryAt v).map Prod.fst
  /-- The free pages, the directory and its 64 tables are the memory behind the kernel, and no page
      is two of these. -/
  pages : (freePages after.1.1 ++ after.2.kpgdir / 4096 :: tablePages after.1.2).Perm
    (pagesAt (lowest kend) ((highest - lowest kend) / 4096))
  count : (tablePages after.1.2).length = 64
  /-- The directory and its tables could be written when they were built, and can be now. -/
  tables : ∀ v, v / 4096 ∈ after.2.kpgdir / 4096 :: tablePages after.1.2 →
    before.translate entryAt v = some (v - kernbase, true) ∧
    after.translate entryAt v = some (v - kernbase, true)
  /-- Every page the allocator can hand out is mapped, and may be written. -/
  heap : ∀ v, v / 4096 ∈ freePages after.1.1 →
    after.translate entryAt v = some (v - kernbase, true)

theorem translate_start {allocAt entryAt : Nat} (h : kernbase ≤ entryAt) (s : Paging) {v : Nat}
    (hv : v < 2 ^ 32) :
    (Machine.start allocAt entryAt s).translate entryAt v = entrySpace v := by
  have hdir : (Machine.start allocAt entryAt s).directory entryAt = some ⟨entryPgdir, s.tables⟩ :=
    if_pos (Nat.sub_add_cancel h)
  rw [Machine.translate, hdir]
  exact translatePse_entry s.tables hv

/-- The address space of a machine whose directory is the one `setupkvm` has built. -/
theorem translate_kernelDir {entryAt d p : Nat} {a : Allocator} {t : Paging} (hk : kernbase ≤ p)
    (hne : p ≠ entryAt) (hlo : 0x80100 < d) (hhi : d < 0x8E000)
    (hflags : ∀ i, Has t i → t.pgdir i % 4096 = 7)
    (hleaf : ∀ m < 2 ^ 20, t.leaf m = kernelLeaf d m) {v : Nat} (hv : v < 2 ^ 32) :
    Machine.translate entryAt ((a, t), ⟨p, p - kernbase⟩) v = kernelSpace (4096 * d) v := by
  have hat : p - kernbase + kernbase = p := Nat.sub_add_cancel hk
  have hdir : Machine.directory entryAt ((a, t), ⟨p, p - kernbase⟩) = some t := by
    unfold Machine.directory
    dsimp only
    rw [hat, if_neg hne, if_pos rfl]
  have hw : ∀ i, contains (t.pgdir i) present = true → contains (t.pgdir i) writable = true := by
    intro i hp
    rw [contains_mod (by decide), hflags i hp]
    decide
  rw [Machine.translate, hdir]
  exact (translatePse_eq hflags v).trans (translate_kernel hv hlo hhi hw (hleaf _ (by omega)))

theorem mem_pagesAt_iff {lo n q : Nat} : q ∈ pagesAt lo n ↔ lo / 4096 ≤ q ∧ q < lo / 4096 + n :=
  List.mem_range'_1

/-- The bound of the memory `ENTRYPGDIR` maps. -/
abbrev early : Nat := kernbase + 0x400000

theorem lowest_mod (kend : Nat) : lowest kend % 4096 = 0 := Nat.mul_mod_left _ _

theorem lt_lowest (kend : Nat) : kend < lowest kend := by
  unfold lowest roundUp
  omega

/-- The memory behind the kernel is writable in its address space. -/
theorem kernelSpace_behind {kend dataBegin v : Nat} (hlink : kernlink < dataBegin)
    (hdata : dataBegin ≤ kend) (hv : lowest kend ≤ v) (htop : v < highest) :
    kernelSpace dataBegin v = some (v - kernbase, true) := by
  have hbehind := lt_lowest kend
  have htext : ¬ (kernlink ≤ v ∧ v < dataBegin) := by omega
  have hin : kernbase ≤ v ∧ v < kernbase + phystop :=
    ⟨Nat.le_trans (Nat.le_of_lt (Nat.lt_of_le_of_lt (by decide) hlink)) (by omega), htop⟩
  rw [kernelSpace, if_pos hin, decide_eq_true htext]

/-- The memory between the bounds, in two parts. -/
theorem pagesAt_split {lo mid hi : Nat} (hlo : lo % 4096 = 0) (hmid : mid % 4096 = 0)
    (h1 : lo ≤ mid) (h2 : mid ≤ hi) :
    pagesAt lo ((mid - lo) / 4096) ++ pagesAt mid ((hi - mid) / 4096) =
      pagesAt lo ((hi - lo) / 4096) := by
  have hstart : mid / 4096 = lo / 4096 + (mid - lo) / 4096 := by omega
  have hsize : (mid - lo) / 4096 + (hi - mid) / 4096 = (hi - lo) / 4096 := by omega
  unfold pagesAt
  rw [hstart, List.range'_append_1, hsize]

/-- **The memory is set up**, put together from the three steps. -/
theorem ready_of_steps {kend d allocAt entryAt p : Nat} {a1 a2 a3 : Allocator} {s t : Paging}
    (hlo : 0x80100 < d) (hhi : d < 0x8E000) (hdata : 4096 * d ≤ kend) (hentry : kernbase ≤ entryAt)
    (hentry' : entryAt < kend) (hroom : lowest kend < early) (hp : p % 4096 = 0)
    (hk : kernbase ≤ p) (hcount : (tablePages t).length = 64)
    (hflags : ∀ i, Has t i → t.pgdir i % 4096 = 7)
    (hleaf : ∀ m < 2 ^ 20, t.leaf m = kernelLeaf d m)
    (h1 : (freePages a1).Perm (pagesAt (lowest kend) ((early - lowest kend) / 4096)))
    (h2 : (freePages a2 ++ p / 4096 :: tablePages t).Perm (freePages a1))
    (h3 : (freePages a3).Perm (pagesAt early ((highest - early) / 4096) ++ freePages a2)) :
    Ready kend (4096 * d) entryAt (Machine.start allocAt entryAt s)
      ((a3, t), ⟨p, p - kernbase⟩) := by
  have hlink : kernlink < 4096 * d := by
    simp only [kernlink, kernbase, extmem]
    omega
  have hlowmod := lowest_mod kend
  have hbehind := lt_lowest kend
  have hmine : ∀ q ∈ p / 4096 :: tablePages t, lowest kend ≤ 4096 * q ∧ 4096 * q < early := by
    intro q hq
    have hmem := h1.mem_iff.mp (h2.mem_iff.mp (List.mem_append_right _ hq))
    obtain ⟨hq1, hq2⟩ := mem_pagesAt_iff.mp hmem
    have hearly : early % 4096 = 0 := by decide
    omega
  have hne : p ≠ entryAt := by
    have hq := (hmine _ List.mem_cons_self).1
    omega
  have hspace : ∀ v < 2 ^ 32, Machine.translate entryAt ((a3, t), ⟨p, p - kernbase⟩) v =
      kernelSpace (4096 * d) v := fun v hv => translate_kernelDir hk hne hlo hhi hflags hleaf hv
  have hall : (freePages a3 ++ p / 4096 :: tablePages t).Perm
      (pagesAt (lowest kend) ((highest - lowest kend) / 4096)) := by
    rw [← pagesAt_split hlowmod (by decide) (Nat.le_of_lt hroom) (by decide)]
    refine (h3.append_right _).trans ?_
    rw [List.append_assoc]
    exact ((h2.trans h1).append_left _).trans List.perm_append_comm
  have htop : highest < 2 ^ 32 ∧ early < highest := by decide
  refine ⟨hspace, fun v hv1 hv2 => ?_, hall, hcount, fun v hv => ?_, fun v hv => ?_⟩
  · have hv : v < 2 ^ 32 := Nat.lt_trans hv2 (by decide)
    have hnlow : ¬ v < 0x400000 := by
      simp only [kernbase] at hv1
      omega
    have hmem : kernbase ≤ v ∧ v < kernbase + phystop := ⟨hv1, Nat.lt_trans hv2 (by decide)⟩
    rw [hspace v hv, translate_start hentry s hv, entrySpace, if_neg hnlow, if_pos ⟨hv1, hv2⟩,
      kernelSpace, if_pos hmem]
    rfl
  · obtain ⟨hq1, hq2⟩ := hmine _ hv
    have hv1 : lowest kend ≤ v := by omega
    have hv2 : v < early := by
      have hearly : early % 4096 = 0 := by decide
      omega
    have hv3 : v < 2 ^ 32 := by omega
    have hnlow : ¬ v < 0x400000 := by
      simp only [kernbase] at hentry
      omega
    rw [hspace v hv3, translate_start hentry s hv3]
    refine ⟨?_, kernelSpace_behind hlink hdata hv1 (Nat.lt_trans hv2 htop.2)⟩
    rw [entrySpace, if_neg hnlow, if_pos ⟨by omega, hv2⟩]
  · have hmem := hall.mem_iff.mp (List.mem_append_left _ hv)
    obtain ⟨hq1, hq2⟩ := mem_pagesAt_iff.mp hmem
    have hhighmod : highest % 4096 = 0 := by decide
    have hv1 : lowest kend ≤ v := by omega
    have hv2 : v < highest := by omega
    rw [hspace v (Nat.lt_trans hv2 htop.1)]
    exact kernelSpace_behind hlink hdata hv1 hv2

section HeapStart

variable {σ υ α : Type} {view : σ → υ} {v : υ} {kend : Nat} {k : Nat → Prog σ Unit α}

/-- The first page behind the kernel that is the heap's. -/
theorem heapStart_gives (hend : kend + 8192 < 2 ^ 32) {Q : Outcome Unit α → υ → Prop}
    (h : Ends view (k (lowest kend)) v Q) :
    Ends view (do
      let behind ← checkedAdd kend pgsize
      let heapStart ← pageRoundup behind
      k heapStart) v Q := by
  have hbehind : kend + pgsize < 2 ^ 32 := Nat.lt_trans (by simp only [pgsize]; omega) hend
  exact (gives_checkedAdd hbehind).then ((gives_pageRoundup hend).then h)

/-- An `end` at the top of the address space overflows. -/
theorem heapStart_overflows (hend : ¬ kend + 8192 < 2 ^ 32) :
    Gives view (do
      let behind ← checkedAdd kend pgsize
      let heapStart ← pageRoundup behind
      k heapStart) v .panic v := by
  by_cases hadd : kend + pgsize < 2 ^ 32
  · refine (gives_checkedAdd hadd).then (Gives.then_panic ?_)
    unfold pageRoundup
    refine (gives_checkedAdd_over ?_).then_panic
    simp only [pgsize]
    omega
  · exact (gives_checkedAdd_over (Nat.le_of_not_lt hadd)).then_panic

end HeapStart

section Main

variable {kend dataBegin : Nat} {m m' : Machine}

theorem gives_early : Gives id (toVirt (4 * 1024 * 1024) : Prog Machine Unit Nat) m (.ok early) m :=
  gives_checkedAdd (by decide)

/-- The steps of `main` behind the rounding of `end`. -/
theorem bootMemory_steps {o : Outcome Unit Unit} (hend : kend + 8192 < 2 ^ 32)
    (h : Gives id (do
      heapInit kend (lowest kend) early
      kvmalloc kend dataBegin
      let rest ← toVirt (4 * 1024 * 1024)
      let top ← toVirt phystop
      heapInit kend rest top) m o m') : bootMemory kend dataBegin m = (o, m') := by
  unfold bootMemory
  exact gives_id_iff.mp (heapStart_gives hend (gives_early.then h))

theorem bootMemory_overflows (hend : ¬ kend + 8192 < 2 ^ 32) :
    bootMemory kend dataBegin m = (.panic, m) :=
  gives_id_iff.mp (heapStart_overflows hend)

end Main

/-- The calls of `main` that set up the memory, where the kernel ends below the bound of
    `ENTRYPGDIR`: all three return, or the second one panics. -/
theorem memory_stages {kend dataBegin allocAt entryAt : Nat} (hal : dataBegin % pgsize = 0)
    (hlink : kernlink < dataBegin) (hdata : dataBegin ≤ kend) (halloc : allocAt < kend)
    (hentry : kernbase ≤ entryAt) (hentry' : entryAt < kend) (hroom : lowest kend < early)
    (s : Paging) :
    ∃ m1, heapInit kend (lowest kend) early (Machine.start allocAt entryAt s) = (.ok (), m1) ∧
      ((lowest kend + 65 * pgsize ≤ early ∧ ∃ m2 m3,
          kvmalloc kend dataBegin m1 = (.ok (), m2) ∧
          heapInit kend early highest m2 = (.ok (), m3) ∧ FreeInv kend m3.1.1 ∧
          Ready kend dataBegin entryAt (Machine.start allocAt entryAt s) m3) ∨
        (¬ lowest kend + 65 * pgsize ≤ early ∧
          ∃ m2, kvmalloc kend dataBegin m1 = (.panic, m2))) := by
  obtain ⟨d, rfl⟩ : ∃ d, dataBegin = 4096 * d := Nat.dvd_of_mod_eq_zero hal
  have hk : kernbase ≤ kend := Nat.le_trans hentry (Nat.le_of_lt hentry')
  have hbehind := lt_lowest kend
  have hlowmod := lowest_mod kend
  have hd : 0x80100 < d ∧ d < 0x8E000 := by
    simp only [kernbase, kernlink, extmem, early] at hlink hroom
    omega
  obtain ⟨a1, hinit, hfree1, hpages1⟩ := init_region (start_free hk halloc) hlowmod (by decide)
    hroom (Nat.le_refl _) (by decide) (fun q _ => List.not_mem_nil)
  have hpages : (freePages a1).Perm (pagesAt (lowest kend) ((early - lowest kend) / 4096)) := by
    rwa [show freePages (rangeAllocInit allocAt) = [] from rfl, List.append_nil] at hpages1
  have hlen := hpages.length_eq
  rw [pagesAt, List.length_range'] at hlen
  have hfits : 65 ≤ (freePages a1).length ↔ lowest kend + 65 * pgsize ≤ early := by
    simp only [pgsize]
    omega
  refine ⟨((a1, s), ⟨0, entryAt - kernbase⟩), heapInit_of hinit, ?_⟩
  rcases setupkvm_heap hfree1 hd.1 hd.2 s with
    ⟨hle, p, a2, t, hrun, hp, hkp, hfree2, hpages2, hcount, hflags, hleaf⟩ | ⟨hlt, w, hrun⟩
  · have hfresh : ∀ q ∈ pagesAt early ((highest - early) / 4096), q ∉ freePages a2 := by
      intro q hq hfree
      have hmem := hpages.mem_iff.mp (hpages2.mem_iff.mp (List.mem_append_left _ hfree))
      have hbelow := (mem_pagesAt_iff.mp hmem).2
      have hfrom := (mem_pagesAt_iff.mp hq).1
      have hearly : early % 4096 = 0 := by decide
      omega
    obtain ⟨a3, hinit3, hfree3, hpages3⟩ : ∃ a', init kend early highest a2 = (.ok (), a') ∧
        FreeInv kend a' ∧ (freePages a').Perm
          (pagesAt early ((highest - early) / 4096) ++ freePages a2) :=
      init_region hfree2 (by decide) (by decide) (by decide) (Nat.le_of_lt hroom) (Nat.le_refl _)
        hfresh
    refine Or.inl ⟨hfits.mp hle, _, ((a3, t), ⟨p, p - kernbase⟩), kvmalloc_of hrun hkp,
      heapInit_of hinit3, hfree3, ?_⟩
    exact ready_of_steps hd.1 hd.2 hdata hentry hentry' hroom hp hkp hcount hflags hleaf hpages
      hpages2 hpages3
  · exact Or.inr ⟨fun hyes => absurd (hfits.mpr hyes) (Nat.not_le_of_lt hlt), _,
      kvmalloc_of_panic hrun⟩

/-- **The kernel sets up its memory exactly when 65 pages lie between the start of its heap and the
    bound of `ENTRYPGDIR`**, and stops otherwise. The heap starts a page behind `end`, rounded up
    (`lowest`). In the first case the directory and its tables were mapped while they were built,
    the switch moves nothing the kernel uses, and every page of the heap is mapped when the
    allocator gets it. -/
theorem bootMemory_ready {kend dataBegin allocAt entryAt : Nat} (hal : dataBegin % pgsize = 0)
    (hlink : kernlink < dataBegin) (hdata : dataBegin ≤ kend) (halloc : allocAt < kend)
    (hentry : kernbase ≤ entryAt) (hentry' : entryAt < kend) (s : Paging) :
    (lowest kend + 65 * pgsize ≤ kernbase + 0x400000 →
      ∃ m, bootMemory kend dataBegin (Machine.start allocAt entryAt s) = (.ok (), m) ∧
        Ready kend dataBegin entryAt (Machine.start allocAt entryAt s) m) ∧
    (¬ lowest kend + 65 * pgsize ≤ kernbase + 0x400000 →
      ∃ m, bootMemory kend dataBegin (Machine.start allocAt entryAt s) = (.panic, m)) := by
  have hk : kernbase ≤ kend := Nat.le_trans hentry (Nat.le_of_lt hentry')
  by_cases hroom : lowest kend < early
  · have hend : kend + 8192 < 2 ^ 32 := by
      have hbehind := lt_lowest kend
      simp only [kernbase, early] at hroom
      omega
    obtain ⟨m1, hinit, ⟨hyes, m2, m3, hkvm, hinit', _, hready⟩ | ⟨hno, m2, hkvm⟩⟩ :=
      memory_stages hal hlink hdata halloc hentry hentry' hroom s
    · refine ⟨fun _ => ⟨m3, bootMemory_steps hend ?_, hready⟩, fun hno => absurd hyes hno⟩
      refine Gives.then (gives_id_iff.mpr hinit) (Gives.then (gives_id_iff.mpr hkvm) ?_)
      exact gives_early.then (Gives.then (gives_checkedAdd (by decide)) (gives_id_iff.mpr hinit'))
    · refine ⟨fun hyes => absurd hyes hno, fun _ => ⟨m2, bootMemory_steps hend ?_⟩⟩
      exact Gives.then (gives_id_iff.mpr hinit) (gives_id_iff.mpr hkvm).then_panic
  · have hno : ¬ lowest kend + 65 * pgsize ≤ early := by
      simp only [pgsize]
      omega
    refine ⟨fun hyes => absurd hyes hno, fun _ => ⟨Machine.start allocAt entryAt s, ?_⟩⟩
    by_cases hend : kend + 8192 < 2 ^ 32
    · refine bootMemory_steps hend (Gives.then_panic (gives_id_iff.mpr ?_))
      exact heapInit_of_panic (init_refuses (start_free hk halloc) (Nat.le_of_not_lt hroom))
    · exact bootMemory_overflows hend

/-- A kernel of 64 KiB behind the first megabyte. -/
theorem bootMemory_ready_small :
    ∃ m, bootMemory 0x80110000 0x80108000
        (Machine.start 0x80109000 0x80104000 (Paging.empty fun _ => none)) = (.ok (), m) ∧
      (tablePages m.1.2).length = 64 ∧
      m.translate 0x80104000 0x80112000 = some (0x112000, true) ∧
      m.translate 0x80104000 0x112000 = none := by
  obtain ⟨m, hrun, hready⟩ := (bootMemory_ready (show 0x80108000 % pgsize = 0 by decide)
    (by decide) (show 0x80108000 ≤ 0x80110000 by decide) (show 0x80109000 < 0x80110000 by decide)
    (show kernbase ≤ 0x80104000 by decide) (by decide) (Paging.empty fun _ => none)).1 (by decide)
  refine ⟨m, hrun, hready.count, ?_, ?_⟩
  · exact (hready.space _ (by decide)).trans (by decide)
  · exact (hready.space _ (by decide)).trans (by decide)

end Sprocket.Vm
