/-
  File:      Sprocket/Kalloc/PageRuns.lean
  Subject:   EVERY PAGE HAS ONE OWNER: whole runs of `init`, `alloc` and `dealloc`.

  FreeList.lean says what one call does to the free list. Here the calls are put in sequence, in
  any order a caller may make them: regions are donated, allocations are made and given back. A
  `World` remembers beside the allocator which regions were donated and which allocations are
  live; neither is known to the allocator.

  * `Permitted` -- what a caller may do: donate an aligned region that is disjoint from the others,
    ask for at least one byte and at most all that was donated, give back what is live;
  * `Owned` -- the donated pages are the free pages and the pages of the live allocations, each
    page exactly once. `perform_owned`: every permitted call keeps it;
  * `pages_have_one_owner` -- so it holds in every run;
  * `freeList_canonical` -- and the free list is the list of the maximal runs of free pages, so that
    no check of the allocator ever fails.
-/
import Sprocket.Lib.Trace
import Sprocket.Kalloc.FreeList

namespace Sprocket.Kalloc

open Prog

/-! ## 1. The calls on the free list -/

/-- An allocation request that the assertion of `alloc` rejects. -/
theorem alloc_overAligned {kend : Nat} {layout : Layout} (a : Allocator)
    (h : pgsize < layout.align) : Gives id (alloc kend layout) a .panic a := by
  unfold alloc require
  rw [if_neg (Nat.not_le.mpr h)]
  exact gives_crash.then_panic

theorem alloc_gives {kend : Nat} {layout : Layout} {a : Allocator} (h : FreeInv kend a)
    (halign : layout.align ≤ pgsize) (hsize : layout.size + 4096 < 2 ^ 32) :
    (∃ p a', Gives id (alloc kend layout) a (.ok p) a' ∧ FreeInv kend a' ∧ p % 4096 = 0 ∧
      (freePages a).Perm (pagesAt p (pagesFor layout.size) ++ freePages a')) ∨
    Gives id (alloc kend layout) a (.err (.exhausted layout)) a := by
  unfold alloc
  rcases allocate_gives h hsize with ⟨p, a', hg, hinv⟩ | ⟨_, hg⟩
  · exact Or.inl ⟨p, a', (gives_require halign).then (ends_mapErr (hg.ends ⟨rfl, rfl⟩)), hinv⟩
  · exact Or.inr ((gives_require halign).then (ends_mapErr (hg.ends ⟨rfl, rfl⟩)))

/-- A request whose number of pages is not computed without overflow. -/
theorem alloc_overflows {kend : Nat} {layout : Layout} {a : Allocator} (h : FreeInv kend a)
    (halign : layout.align ≤ pgsize) (hsize : ¬ layout.size + 4096 < 2 ^ 32) :
    Gives id (alloc kend layout) a .panic a := by
  have hover : 2 ^ 32 ≤ pgsize + layout.size := by
    rw [Nat.add_comm]
    exact Nat.le_of_not_lt hsize
  have hg : Gives id (allocate kend layout.size) a .panic a := by
    unfold allocate sizeToPages
    exact (verify_gives h).then ((gives_checkedAdd_over hover).then_panic).then_panic
  unfold alloc
  exact (gives_require halign).then (ends_mapErr (hg.ends ⟨rfl, rfl⟩))

/-- The end address of a range, as `dealloc` computes it. -/
theorem stop_arith {r : Range} (h : r.Fits) : (r.size + 1) * 4096 < 2 ^ 32 ∧
    ptrOffset r.addr (toSigned ((r.size + 1) * 4096)) = r.stop ∧
    r.stop - r.addr = (r.size + 1) * 4096 := by
  have hb := h.bytes
  have hs := h.stop
  rw [stop_eq] at hs ⊢
  rw [Nat.mul_comm, toSigned_small hb]
  exact ⟨Nat.lt_trans hb (by decide), ptrOffset_small hs, Nat.add_sub_cancel_left _ _⟩

/-- Giving back the pages of the range `r`. -/
theorem dealloc_gives {kend : Nat} {layout : Layout} {a : Allocator} (h : FreeInv kend a)
    {r : Range}
    (hsize : layout.size + 4096 < 2 ^ 32) (hpages : pagesFor layout.size = r.size + 1)
    (hal : r.addr % 4096 = 0) (hlow : lowest kend ≤ r.addr) (hhigh : r.stop ≤ highest)
    (hfresh : ∀ q ∈ pagesAt r.addr (r.size + 1), q ∉ freePages a) :
    ∃ a', Gives id (dealloc kend r.addr layout) a (.ok ()) a' ∧ a'.start = a.start ∧
      FreeInv kend a' ∧ (freePages a').Perm (pagesAt r.addr (r.size + 1) ++ freePages a) := by
  obtain ⟨a', hg, hstart, hinv, hperm⟩ := freeRange_gives AllocErr h hal hlow hhigh hfresh
  refine ⟨a', ?_, hstart, hinv, hperm⟩
  have hfits := fits_of_bounds h.kend_ge hlow hhigh
  obtain ⟨hbytes, hend, hdiff⟩ := stop_arith hfits
  have hstop := stop_eq r
  have hlt := addr_lt_stop r
  have hround := roundUp_le_of_lowest_le hlow
  have hn := pageno_stop hal hlow
  have htop : r.stop + 4096 < 2 ^ 32 := by
    simp only [highest, kernbase, phystop] at hhigh
    omega
  unfold dealloc
  refine (sizeToPages_gives hsize).then ?_
  rw [hpages]
  refine (gives_checkedMul hbytes).then ?_
  dsimp only
  rw [hend]
  refine (gives_checkedSub (by omega)).then ((gives_require hdiff).then ?_)
  refine (gives_pageno (by omega) (by omega) htop).then ?_
  refine (gives_pageno hround hal (by omega)).then ?_
  refine (gives_checkedSub (by omega)).then ((gives_require hn).then ?_)
  exact hg

/-! ## 2. Regions, live allocations and their pages -/

/-- The allocator with what its callers know: the donated regions (start and end address) and the
    live allocations (pointer and layout). -/
structure World where
  allocator : Allocator
  live : List (Nat × Layout)
  donated : List (Nat × Nat)

/-- The pages of a live allocation. -/
def blockPages (b : Nat × Layout) : List Nat := pagesAt b.1 (pagesFor b.2.size)

/-- The pages of a donated region. -/
def regionPages (d : Nat × Nat) : List Nat := pagesAt d.1 ((d.2 - d.1) / 4096)

def World.livePages (w : World) : List Nat := w.live.flatMap blockPages

def World.donatedPages (w : World) : List Nat := w.donated.flatMap regionPages

def World.donatedBytes (w : World) : Nat := (w.donated.map fun d => d.2 - d.1).sum

/-- A region that may be donated. -/
structure Region (kend : Nat) (d : Nat × Nat) : Prop where
  start_aligned : d.1 % 4096 = 0
  end_aligned : d.2 % 4096 = 0
  nonempty : d.1 < d.2
  low : lowest kend ≤ d.1
  high : d.2 ≤ highest

inductive Call where
  | init (vstart vend : Nat)
  | alloc (layout : Layout)
  | dealloc (ptr : Nat) (layout : Layout)

/-- What a caller may do. -/
def Call.Permitted (kend : Nat) (w : World) : Call → Prop
  | .init vstart vend =>
    Region kend (vstart, vend) ∧ ∀ d ∈ w.donated, d.2 ≤ vstart ∨ vend ≤ d.1
  | .alloc layout => 0 < layout.size ∧ layout.size ≤ w.donatedBytes
  | .dealloc ptr layout => (ptr, layout) ∈ w.live

/-- A call, and what its caller remembers afterwards. -/
def Call.perform (kend : Nat) : Call → Prog World AllocErr Unit
  | .init vstart vend, w =>
    let r := Kalloc.init kend vstart vend w.allocator
    (r.1, { w with allocator := r.2, donated := (vstart, vend) :: w.donated })
  | .alloc layout, w =>
    match Kalloc.alloc kend layout w.allocator with
    | (.ok p, a) => (.ok (), { w with allocator := a, live := (p, layout) :: w.live })
    | (.err e, a) => (.err e, { w with allocator := a })
    | (.panic, a) => (.panic, { w with allocator := a })
  | .dealloc ptr layout, w =>
    let r := Kalloc.dealloc kend ptr layout w.allocator
    (r.1, { w with allocator := r.2, live := w.live.erase (ptr, layout) })

/-- One permitted call. -/
def CallStep (kend : Nat) (w : World) (c : Call) (w' : World) : Prop :=
  c.Permitted kend w ∧ w' = (c.perform kend w).2

/-- Nothing donated, nothing live, the sentinel at address `addr`. -/
def World.start (addr : Nat) : World := ⟨rangeAllocInit addr, [], []⟩

theorem Region.size {kend : Nat} {d : Nat × Nat} (h : Region kend d) :
    d.2 - d.1 = 4096 * ((d.2 - d.1) / 4096) := by
  have h1 := h.start_aligned
  have h2 := h.end_aligned
  omega

theorem Region.mem_pages {kend : Nat} {d : Nat × Nat} (h : Region kend d) {q : Nat} :
    q ∈ regionPages d ↔ d.1 ≤ 4096 * q ∧ 4096 * q < d.2 := by
  have h1 := h.start_aligned
  have h2 := h.end_aligned
  have h3 := h.nonempty
  rw [regionPages, pagesAt, List.mem_range'_1]
  omega

/-- A block a caller may hold: aligned, not empty, and in the memory that may be donated. -/
structure Block (kend : Nat) (b : Nat × Layout) : Prop where
  aligned : b.1 % 4096 = 0
  pos : 0 < b.2.size
  fits : b.2.size + 4096 < 2 ^ 32
  inside : ∀ q ∈ blockPages b, lowest kend ≤ 4096 * q ∧ 4096 * q < highest

/-- **Each donated page has one owner.** -/
structure Owned (kend : Nat) (w : World) : Prop where
  free : FreeInv kend w.allocator
  regions : ∀ d ∈ w.donated, Region kend d
  nodup : w.donatedPages.Nodup
  pages : (freePages w.allocator ++ w.livePages).Perm w.donatedPages
  blocks : ∀ b ∈ w.live, b.1 % 4096 = 0 ∧ 0 < b.2.size ∧ b.2.size + 4096 < 2 ^ 32

section Facts

variable {kend : Nat} {w : World}

theorem Owned.mem_donated (h : Owned kend w) {q : Nat} :
    q ∈ w.donatedPages ↔ ∃ d ∈ w.donated, d.1 ≤ 4096 * q ∧ 4096 * q < d.2 := by
  rw [World.donatedPages, List.mem_flatMap]
  exact exists_congr fun d => and_congr_right fun hd => (h.regions d hd).mem_pages

theorem Owned.page_bounds (h : Owned kend w) {q : Nat} (hq : q ∈ w.donatedPages) :
    lowest kend ≤ 4096 * q ∧ 4096 * q < highest := by
  obtain ⟨d, hd, h1, h2⟩ := h.mem_donated.mp hq
  exact ⟨Nat.le_trans (h.regions d hd).low h1, Nat.lt_of_lt_of_le h2 (h.regions d hd).high⟩

theorem donatedBytes_eq : ∀ {ds : List (Nat × Nat)}, (∀ d ∈ ds, Region kend d) →
    (ds.map fun d => d.2 - d.1).sum = 4096 * (ds.flatMap regionPages).length
  | [], _ => rfl
  | d :: ds, h => by
      have hd := (h d List.mem_cons_self).size
      have ih := donatedBytes_eq fun e he => h e (List.mem_cons_of_mem d he)
      rw [List.map_cons, List.sum_cons, ih, List.flatMap_cons, List.length_append, regionPages,
        pagesAt, List.length_range', Nat.mul_add, ← hd]

theorem Owned.donatedBytes_le (h : Owned kend w) : w.donatedBytes ≤ 4096 * 0xE000 := by
  have hlen := length_le_of_low_high h.free.kend_ge h.nodup fun q hq => h.page_bounds hq
  rw [World.donatedBytes, donatedBytes_eq h.regions]
  exact Nat.mul_le_mul_left 4096 hlen

theorem pagesFor_pos {size : Nat} (h : 0 < size) : 0 < pagesFor size := by
  unfold pagesFor
  omega

/-- A block as a range of pages. -/
theorem Block.range {b : Nat × Layout} (h : Block kend b) :
    ∃ r : Range, r.addr = b.1 ∧ r.size + 1 = pagesFor b.2.size ∧ lowest kend ≤ r.addr ∧
      r.stop ≤ highest := by
  have hal := h.aligned
  have hn := pagesFor_pos h.pos
  have hfirst := h.inside (b.1 / 4096) (List.mem_range'_1.mpr (by omega))
  have hlast := h.inside (b.1 / 4096 + (pagesFor b.2.size - 1)) (List.mem_range'_1.mpr (by omega))
  refine ⟨⟨b.1, pagesFor b.2.size - 1⟩, rfl, Nat.sub_add_cancel hn, ?_, ?_⟩
  · show lowest kend ≤ b.1
    omega
  · have hs := stop_eq ⟨b.1, pagesFor b.2.size - 1⟩
    simp only [highest, kernbase, phystop] at hlast ⊢
    dsimp only at hs
    omega

/-- **Giving back a block** whose pages are not free. -/
theorem Block.dealloc {a : Allocator} {b : Nat × Layout} (hb : Block kend b)
    (h : FreeInv kend a) (hfresh : ∀ q ∈ blockPages b, q ∉ freePages a) :
    ∃ a', Gives id (dealloc kend b.1 b.2) a (.ok ()) a' ∧ a'.start = a.start ∧
      FreeInv kend a' ∧ (freePages a').Perm (blockPages b ++ freePages a) := by
  obtain ⟨r, haddr, hsize, hlow, hhigh⟩ := hb.range
  have hpages : blockPages b = pagesAt r.addr (r.size + 1) := by
    rw [hsize, haddr]
    rfl
  rw [hpages] at hfresh ⊢
  rw [← haddr]
  exact dealloc_gives h hb.fits hsize.symm (haddr ▸ hb.aligned) hlow hhigh hfresh

theorem Owned.block (h : Owned kend w) {b : Nat × Layout} (hb : b ∈ w.live) : Block kend b where
  aligned := (h.blocks b hb).1
  pos := (h.blocks b hb).2.1
  fits := (h.blocks b hb).2.2
  inside _ hq :=
    h.page_bounds (h.pages.subset (List.mem_append_right _ (List.mem_flatMap.mpr ⟨b, hb, hq⟩)))

theorem Owned.nodup_all (h : Owned kend w) : (freePages w.allocator ++ w.livePages).Nodup :=
  h.pages.nodup_iff.mpr h.nodup

end Facts

/-! ## 3. Every permitted call keeps the owners -/

section Steps

variable {kend : Nat} {w : World}

theorem init_owned (h : Owned kend w) {vstart vend : Nat}
    (hc : (Call.init vstart vend).Permitted kend w) :
    ((Call.init vstart vend).perform kend w).1 = .ok () ∧
      Owned kend ((Call.init vstart vend).perform kend w).2 := by
  obtain ⟨hreg, hdisj⟩ := hc
  have hnew : ∀ q ∈ regionPages (vstart, vend), q ∉ w.donatedPages := by
    intro q hq hq'
    obtain ⟨d, hd, h1, h2⟩ := h.mem_donated.mp hq'
    obtain ⟨h3, h4⟩ := hreg.mem_pages.mp hq
    dsimp only at h3 h4
    rcases hdisj d hd with hd | hd <;> omega
  obtain ⟨a', hrun, hinv, hperm⟩ := init_region h.free hreg.start_aligned hreg.end_aligned
    hreg.nonempty hreg.low hreg.high
    (fun q hq hq' => hnew q hq (h.pages.subset (List.mem_append_left _ hq')))
  have hall : (regionPages (vstart, vend) ++ w.donatedPages).Nodup :=
    List.nodup_append.mpr ⟨List.nodup_range', h.nodup, fun q hq x hx e => hnew q hq (e ▸ hx)⟩
  unfold Call.perform
  dsimp only at hrun ⊢
  rw [hrun]
  refine ⟨rfl, hinv, List.forall_mem_cons.mpr ⟨hreg, h.regions⟩, hall, ?_, h.blocks⟩
  show (freePages a' ++ w.livePages).Perm (regionPages (vstart, vend) ++ w.donatedPages)
  refine (hperm.append_right _).trans ?_
  rw [List.append_assoc]
  exact h.pages.append_left _

theorem alloc_owned (h : Owned kend w) {layout : Layout}
    (hc : (Call.alloc layout).Permitted kend w) :
    ((layout.align ≤ pgsize → ((Call.alloc layout).perform kend w).1 = .ok () ∨
        ((Call.alloc layout).perform kend w).1 = .err (.exhausted layout)) ∧
      (pgsize < layout.align → ((Call.alloc layout).perform kend w).1 = .panic)) ∧
      Owned kend ((Call.alloc layout).perform kend w).2 := by
  obtain ⟨hpos, hle⟩ := hc
  have hsize : layout.size + 4096 < 2 ^ 32 := by
    have := h.donatedBytes_le
    omega
  unfold Call.perform
  dsimp only
  by_cases halign : layout.align ≤ pgsize
  · rcases alloc_gives h.free halign hsize with ⟨p, a', hg, hinv, hp, hperm⟩ | hg
    · have e : alloc kend layout w.allocator = (.ok p, a') := Prod.ext_iff.mpr (hg w.allocator rfl)
      rw [e]
      refine ⟨⟨fun _ => Or.inl rfl, fun hn => absurd halign (Nat.not_le.mpr hn)⟩, hinv, h.regions,
        h.nodup, ?_, List.forall_mem_cons.mpr ⟨⟨hp, hpos, hsize⟩, h.blocks⟩⟩
      show (freePages a' ++ (pagesAt p (pagesFor layout.size) ++ w.livePages)).Perm w.donatedPages
      rw [← List.append_assoc]
      exact ((List.perm_append_comm.trans hperm.symm).append_right _).trans h.pages
    · have e : alloc kend layout w.allocator = (.err (.exhausted layout), w.allocator) :=
        Prod.ext_iff.mpr (hg w.allocator rfl)
      rw [e]
      exact ⟨⟨fun _ => Or.inr rfl, fun hn => absurd halign (Nat.not_le.mpr hn)⟩, h⟩
  · have e : alloc kend layout w.allocator = (.panic, w.allocator) :=
      Prod.ext_iff.mpr (alloc_overAligned w.allocator (Nat.not_le.mp halign) w.allocator rfl)
    rw [e]
    exact ⟨⟨fun hn => absurd hn halign, fun _ => rfl⟩, h⟩

theorem dealloc_owned (h : Owned kend w) {ptr : Nat} {layout : Layout}
    (hc : (Call.dealloc ptr layout).Permitted kend w) :
    ((Call.dealloc ptr layout).perform kend w).1 = .ok () ∧
      Owned kend ((Call.dealloc ptr layout).perform kend w).2 := by
  have hmem : (ptr, layout) ∈ w.live := hc
  have hlive : w.livePages.Perm
      (blockPages (ptr, layout) ++ (w.live.erase (ptr, layout)).flatMap blockPages) :=
    (List.perm_cons_erase hmem).flatMap_right blockPages
  have hfresh : ∀ q ∈ blockPages (ptr, layout), q ∉ freePages w.allocator := by
    intro q hq hq'
    exact (List.nodup_append.mp h.nodup_all).2.2 q hq' q
      (hlive.symm.subset (List.mem_append_left _ hq)) rfl
  obtain ⟨a', hg, _, hinv, hperm⟩ := (h.block hmem).dealloc h.free hfresh
  obtain ⟨ho, ha⟩ := hg w.allocator rfl
  have hfree : (dealloc kend ptr layout w.allocator).2 = a' := ha
  refine ⟨ho, ?_⟩
  unfold Call.perform
  dsimp only
  rw [hfree]
  refine ⟨hinv, h.regions, h.nodup, ?_, fun b hb => h.blocks b (List.mem_of_mem_erase hb)⟩
  refine List.Perm.trans ?_ h.pages
  refine (hperm.append_right _).trans ?_
  refine (List.perm_append_comm.append_right _).trans ?_
  rw [List.append_assoc]
  exact hlive.symm.append_left _

theorem perform_owned (h : Owned kend w) {c : Call} (hc : c.Permitted kend w) :
    Owned kend (c.perform kend w).2 := by
  cases c with
  | init vstart vend => exact (init_owned h hc).2
  | alloc layout => exact (alloc_owned h hc).2
  | dealloc ptr layout => exact (dealloc_owned h hc).2

theorem start_owned {addr : Nat} (hk : kernbase ≤ kend) (ha : addr < kend) :
    Owned kend (World.start addr) where
  free := start_free hk ha
  regions := nofun
  nodup := List.nodup_nil
  pages := List.Perm.refl []
  blocks := nofun

/-- The invariant of all runs. -/
theorem trace_owned {addr : Nat} {cs : List Call} (hk : kernbase ≤ kend) (ha : addr < kend)
    (h : Trace (CallStep kend) (World.start addr) cs w) : Owned kend w := by
  refine h.invariant ?_ (start_owned hk ha)
  rintro s c t hs ⟨hc, rfl⟩
  exact perform_owned hs hc

end Steps

/-! ## 4. Ownership in every run -/

/-- **Every page has one owner.** In every run the live allocations are page-aligned, lie inside
    donated memory, and share no page with each other or with the free list. The donated pages are
    the free pages and the live pages, each once; the sentinel has none of them. -/
theorem pages_have_one_owner {kend addr : Nat} {cs : List Call} {w : World} (hk : kernbase ≤ kend)
    (ha : addr < kend) (h : Trace (CallStep kend) (World.start addr) cs w) :
    (∀ b ∈ w.live, b.1 % 4096 = 0 ∧ ∀ q ∈ blockPages b, q ∈ w.donatedPages) ∧
    (w.live.Pairwise fun b c => ∀ q ∈ blockPages b, q ∉ blockPages c) ∧
    (∀ r ∈ w.allocator.ranges, r.addr % 4096 = 0 ∧
      ∀ b ∈ w.live, ∀ q ∈ pagesAt r.addr (r.size + 1), q ∉ blockPages b) ∧
    (freePages w.allocator ++ w.livePages).Perm w.donatedPages ∧
    (freePages w.allocator ++ w.livePages).Nodup ∧
    w.allocator.start.size = 0 ∧ w.allocator.length = (freePages w.allocator).length := by
  have hw := trace_owned hk ha h
  obtain ⟨_, hlive, hdisj⟩ := List.nodup_append.mp hw.nodup_all
  have hblock : ∀ b ∈ w.live, ∀ q ∈ blockPages b, q ∈ w.livePages := fun b hb q hq =>
    List.mem_flatMap.mpr ⟨b, hb, hq⟩
  refine ⟨fun b hb => ⟨(hw.blocks b hb).1, fun q hq => ?_⟩, ?_,
    fun r hr => ⟨hw.free.aligned r hr, ?_⟩,
    hw.pages, hw.nodup_all, hw.free.start_size, hw.free.length⟩
  · exact hw.pages.subset (List.mem_append_right _ (hblock b hb q hq))
  · exact (List.nodup_flatMap.mp hlive).2.imp fun hbc q hq hq' => hbc hq hq'
  · intro b hb q hq hq'
    have hfree : q ∈ freePages w.allocator :=
      (mem_pagesOf hw.free.aligned q).mpr
        ⟨r, hr, (mem_pagesAt (hw.free.aligned r hr) q).mp hq⟩
    exact hdisj q hfree q (hblock b hb q hq') rfl

/-- A page behind the kernel, donated. -/
def donateOne : Call := .init (kernlink + 0x2000) (kernlink + 0x3000)

/-- The kernel's first donation, on a list that is still empty. -/
theorem donateOne_trace : Trace (CallStep kernlink) (World.start kernbase) [donateOne]
    (donateOne.perform kernlink (World.start kernbase)).2 :=
  .single ⟨⟨⟨by decide, by decide, by decide, by decide, by decide⟩, nofun⟩, rfl⟩

/-- The world after the first donation and the first allocation. -/
def oneLive : World :=
  ((Call.alloc ⟨1, 8⟩).perform kernlink (donateOne.perform kernlink (World.start kernbase)).2).2

theorem pages_have_one_owner_oneLive :
    (freePages oneLive.allocator ++ oneLive.livePages).Perm oneLive.donatedPages :=
  have hstep : CallStep kernlink (donateOne.perform kernlink (World.start kernbase)).2
      (.alloc ⟨1, 8⟩) oneLive := ⟨⟨by decide, by decide⟩, rfl⟩
  (pages_have_one_owner (by decide) (by decide) (donateOne_trace.snoc hstep)).2.2.2.1

/-! ## 5. The free list is canonical -/

/-- The free pages are the donated ones that are not live. -/
theorem Owned.mem_free {kend : Nat} {w : World} (h : Owned kend w) (q : Nat) :
    q ∈ freePages w.allocator ↔ q ∈ w.donatedPages ∧ q ∉ w.livePages := by
  rw [← h.pages.mem_iff, List.mem_append]
  have hdisj := (List.nodup_append.mp h.nodup_all).2.2
  constructor
  · exact fun hq => ⟨Or.inl hq, fun hq' => hdisj q hq q hq' rfl⟩
  · rintro ⟨hq | hq, hn⟩
    · exact hq
    · exact absurd hq hn

/-- **The nodes are the maximal runs of free pages.** -/
theorem Owned.mem_ranges {kend : Nat} {w : World} (h : Owned kend w) (r : Range) :
    r ∈ w.allocator.ranges ↔ r.addr % 4096 = 0 ∧
      Run.IsMaximal (fun q => q ∈ w.donatedPages ∧ q ∉ w.livePages) r.run := by
  have hfree : (fun q => q ∈ w.donatedPages ∧ q ∉ w.livePages) = (· ∈ freePages w.allocator) :=
    funext fun q => propext (h.mem_free q).symm
  rw [hfree]
  exact h.free.mem_ranges r

/-- **The free list is canonical, and no check ever fails.** In every run the list holds exactly
    the maximal runs of free pages, in strictly increasing order, none touching the next. `verify`
    passes, donating and giving back succeed, and a request that passes the alignment check of
    `alloc` is answered. -/
theorem freeList_canonical {kend addr : Nat} {cs : List Call} {w : World} (hk : kernbase ≤ kend)
    (ha : addr < kend) (h : Trace (CallStep kend) (World.start addr) cs w) :
    (w.allocator.ranges.Pairwise fun r s => r.addr + 4096 * (r.size + 1) < s.addr) ∧
    (∀ r, r ∈ w.allocator.ranges ↔ r.addr % 4096 = 0 ∧
      Run.IsMaximal (fun q => q ∈ w.donatedPages ∧ q ∉ w.livePages) r.run) ∧
    (verify kend : Prog Allocator AllocErr Unit) w.allocator = (.ok (), w.allocator) ∧
    (∀ vstart vend, (Call.init vstart vend).Permitted kend w →
      ((Call.init vstart vend).perform kend w).1 = .ok ()) ∧
    (∀ layout, (Call.alloc layout).Permitted kend w → layout.align ≤ pgsize →
      ((Call.alloc layout).perform kend w).1 = .ok () ∨
      ((Call.alloc layout).perform kend w).1 = .err (.exhausted layout)) ∧
    ∀ ptr layout, (Call.dealloc ptr layout).Permitted kend w →
      ((Call.dealloc ptr layout).perform kend w).1 = .ok () := by
  have hw := trace_owned hk ha h
  refine ⟨hw.free.sorted.imp fun hrs => ?_, hw.mem_ranges, ?_, ?_, ?_, ?_⟩
  · rw [stop_eq] at hrs
    exact hrs
  · exact Prod.ext_iff.mpr (verify_gives hw.free w.allocator rfl)
  · exact fun vstart vend hc => (init_owned hw hc).1
  · exact fun layout hc halign => (alloc_owned hw hc).1.1 halign
  · exact fun ptr layout hc => (dealloc_owned hw hc).1

/-- The world after some calls, from the start. -/
def after (cs : List Call) : World :=
  cs.foldl (fun w c => (c.perform kernlink w).2) (World.start kernbase)

theorem after_snoc {cs : List Call} {c : Call}
    (h : Trace (CallStep kernlink) (World.start kernbase) cs (after cs))
    (hc : c.Permitted kernlink (after cs)) :
    Trace (CallStep kernlink) (World.start kernbase) (cs ++ [c]) (after (cs ++ [c])) := by
  refine h.snoc ⟨hc, ?_⟩
  unfold after
  rw [List.foldl_append]
  rfl

/-- Two regions, of five pages and of two. -/
def donations : List Call :=
  [.init (kernlink + 0x2000) (kernlink + 0x7000), .init (kernlink + 0xA000) (kernlink + 0xC000)]

theorem donations_trace :
    Trace (CallStep kernlink) (World.start kernbase) donations (after donations) := by
  have hfirst : Trace (CallStep kernlink) (World.start kernbase)
      [.init (kernlink + 0x2000) (kernlink + 0x7000)]
      (after [.init (kernlink + 0x2000) (kernlink + 0x7000)]) :=
    .single ⟨⟨⟨by decide, by decide, by decide, by decide, by decide⟩,
      fun d hd => absurd hd List.not_mem_nil⟩, rfl⟩
  refine after_snoc hfirst ⟨⟨by decide, by decide, by decide, by decide, by decide⟩, ?_⟩
  intro d hd
  have hone : d ∈ [(kernlink + 0x2000, kernlink + 0x7000)] := hd
  rw [List.mem_singleton.mp hone]
  exact .inl (by decide)

/-- Three allocations, of which the second is given back: between the runs of one, two and two free
    pages there are live ones. -/
def holes : List Call :=
  donations ++ [.alloc ⟨1, 8⟩] ++ [.alloc ⟨8192, 8⟩] ++ [.alloc ⟨4096, 8⟩] ++
    [.dealloc (kernlink + 0x4000) ⟨8192, 8⟩]

theorem holes_trace : Trace (CallStep kernlink) (World.start kernbase) holes (after holes) := by
  have hfirst := after_snoc (c := .alloc ⟨1, 8⟩) donations_trace ⟨by decide, by decide +kernel⟩
  have hsecond := after_snoc (c := .alloc ⟨8192, 8⟩) hfirst ⟨by decide, by decide +kernel⟩
  have hthird := after_snoc (c := .alloc ⟨4096, 8⟩) hsecond ⟨by decide, by decide +kernel⟩
  have hlive : (after (donations ++ [.alloc ⟨1, 8⟩] ++ [.alloc ⟨8192, 8⟩] ++
      [.alloc ⟨4096, 8⟩])).live = [(kernlink + 0x3000, ⟨4096, 8⟩), (kernlink + 0x4000, ⟨8192, 8⟩),
        (kernlink + 0x6000, ⟨1, 8⟩)] := by decide +kernel
  refine after_snoc hthird ?_
  show (kernlink + 0x4000, (⟨8192, 8⟩ : Layout)) ∈ (after _).live
  rw [hlive]
  exact List.mem_cons_of_mem _ List.mem_cons_self

/-- With these holes `verify` passes. Giving back the page between the first two runs succeeds, and
    merges it with both. -/
theorem freeList_canonical_holes :
    (after holes).allocator.ranges =
      [⟨kernlink + 0x2000, 0⟩, ⟨kernlink + 0x4000, 1⟩, ⟨kernlink + 0xA000, 1⟩] ∧
    (verify kernlink : Prog Allocator AllocErr Unit) (after holes).allocator =
      (.ok (), (after holes).allocator) ∧
    ((Call.dealloc (kernlink + 0x3000) ⟨4096, 8⟩).perform kernlink (after holes)).1 = .ok () ∧
    ((Call.dealloc (kernlink + 0x3000) ⟨4096, 8⟩).perform kernlink (after holes)).2.allocator.ranges
      = [⟨kernlink + 0x2000, 3⟩, ⟨kernlink + 0xA000, 1⟩] := by
  have hlive : (after holes).live = [(kernlink + 0x3000, ⟨4096, 8⟩),
      (kernlink + 0x6000, ⟨1, 8⟩)] := by decide +kernel
  obtain ⟨-, -, hverify, -, -, hdealloc⟩ :=
    freeList_canonical (by decide) (by decide) holes_trace
  refine ⟨by decide +kernel, hverify, hdealloc _ _ ?_, by decide +kernel⟩
  show (kernlink + 0x3000, (⟨4096, 8⟩ : Layout)) ∈ (after holes).live
  rw [hlive]
  exact List.mem_cons_self

/-- A request for one byte with an alignment above a page panics, with a page free. -/
theorem overAligned_request_panics :
    Trace (CallStep kernlink) (World.start kernbase) [donateOne]
      (donateOne.perform kernlink (World.start kernbase)).2 ∧
    (Call.alloc ⟨1, 8192⟩).Permitted kernlink
      (donateOne.perform kernlink (World.start kernbase)).2 ∧
    ((Call.alloc ⟨1, 8192⟩).perform kernlink
      (donateOne.perform kernlink (World.start kernbase)).2).1 = .panic :=
  have hw := trace_owned (by decide) (by decide) donateOne_trace
  have hc : (Call.alloc ⟨1, 8192⟩).Permitted kernlink
      (donateOne.perform kernlink (World.start kernbase)).2 := ⟨by decide, by decide⟩
  ⟨donateOne_trace, hc, (alloc_owned hw hc).1.2 (by decide)⟩

end Sprocket.Kalloc
