/-
  File:      Sprocket/Kalloc/Undo.lean
  Subject:   `dealloc` UNDOES `alloc`, in any order and at any usable size.

  The number of pages of an allocation is computed in three places: by `size_to_pages` when it is
  made and again when it is given back, by `usable_size` for the caller, and as a difference of
  page numbers in `dealloc`. They agree for every size a caller may name (`UsableFor.pages`).

  Giving pages back merges nodes with their neighbours in an order that depends on which of them
  are free already. Nothing has to be said about these merges: the free pages determine the list
  (`FreeInv.eq_of_pages`), so it is enough that the same pages are free again.

  * `allocAll_blocks`, `deallocAll_gives` -- a sequence of allocations takes the pages of its
    blocks out of the free pages, and giving blocks back puts theirs in;
  * `dealloc_undoes_alloc` -- both together, for every permutation of the blocks.
-/
import Sprocket.Kalloc.PageRuns

namespace Sprocket.Kalloc

open Prog

/-! ## 1. Usable sizes -/

/-- An allocation made with `layout` may be given back with `layout'`: its size is within the
    bounds `usable_size` returns. -/
def UsableFor (layout layout' : Layout) : Prop :=
  ∃ bounds : Nat × Nat, (usableSize layout : Prog Unit Unit (Nat × Nat)) () = (.ok bounds, ()) ∧
    bounds.1 ≤ layout'.size ∧ layout'.size ≤ bounds.2

theorem usableSize_gives {σ υ ε : Type} {view : σ → υ} {v : υ} {layout : Layout}
    (hsize : layout.size + 4096 < 2 ^ 32) (hbytes : pagesFor layout.size * 4096 < 2 ^ 32) :
    Gives view (usableSize layout : Prog σ ε (Nat × Nat)) v
      (.ok (layout.size, pagesFor layout.size * 4096)) v := by
  unfold usableSize
  refine (sizeToPages_gives hsize).then ?_
  exact (gives_checkedMul hbytes).then (gives_pure _)

/-- **A usable size has as many pages**: rounding up to pages forgets the difference. -/
theorem UsableFor.pages {layout layout' : Layout} (h : UsableFor layout layout')
    (hsize : layout.size + 4096 < 2 ^ 32) (hbytes : pagesFor layout.size * 4096 < 2 ^ 32) :
    layout.size ≤ layout'.size ∧ layout'.size ≤ pagesFor layout.size * 4096 ∧
      pagesFor layout'.size = pagesFor layout.size := by
  obtain ⟨bounds, hrun, hlow, hhigh⟩ := h
  have hgives : Gives id (usableSize layout : Prog Unit Unit (Nat × Nat)) ()
      (.ok (layout.size, pagesFor layout.size * 4096)) () := usableSize_gives hsize hbytes
  obtain ⟨hok, _⟩ := hgives () rfl
  rw [hrun] at hok
  have hbounds : bounds = (layout.size, pagesFor layout.size * 4096) := Outcome.ok.inj hok
  subst hbounds
  refine ⟨hlow, hhigh, ?_⟩
  unfold pagesFor at hhigh ⊢
  dsimp only at hlow hhigh
  omega

theorem Block.bytes_lt {kend : Nat} {b : Nat × Layout} (h : Block kend b) :
    pagesFor b.2.size * 4096 + 4096 < 2 ^ 32 := by
  obtain ⟨r, _, hsize, _, hhigh⟩ := h.range
  rw [stop_eq] at hhigh
  simp only [highest, kernbase, phystop] at hhigh
  omega

/-- A block with another usable size has the same pages. -/
theorem Block.usable {kend p : Nat} {layout layout' : Layout} (h : Block kend (p, layout))
    (hu : UsableFor layout layout') :
    Block kend (p, layout') ∧ blockPages (p, layout') = blockPages (p, layout) := by
  have hbytes := h.bytes_lt
  obtain ⟨hlow, hhigh, hpages⟩ := hu.pages h.fits (Nat.lt_of_le_of_lt (Nat.le_add_right _ _) hbytes)
  have hsame : blockPages (p, layout') = blockPages (p, layout) := by
    unfold blockPages
    rw [hpages]
  refine ⟨⟨h.aligned, Nat.lt_of_lt_of_le h.pos hlow, ?_, ?_⟩, hsame⟩
  · dsimp only at hbytes ⊢
    omega
  · rw [hsame]
    exact h.inside

/-! ## 2. Sequences of calls -/

section Code

variable (kend : Nat)

/-- One allocation after the other: the pointers. -/
def allocAll : List Layout → Prog Allocator AllocErr (List Nat)
  | [] => pure []
  | layout :: rest => do
    let p ← alloc kend layout
    let ps ← allocAll rest
    pure (p :: ps)

/-- Give the blocks back, one after the other. -/
def deallocAll : List (Nat × Layout) → Prog Allocator AllocErr Unit
  | [] => pure ()
  | b :: rest => do
    dealloc kend b.1 b.2
    deallocAll rest

end Code

section Calls

variable {kend : Nat}

/-- **A successful allocation is a block of pages that were free.** -/
theorem alloc_block {a a' : Allocator} (h : FreeInv kend a) {layout : Layout} {p : Nat}
    (hpos : 0 < layout.size) (hrun : alloc kend layout a = (.ok p, a')) :
    Block kend (p, layout) ∧ FreeInv kend a' ∧ a'.start = a.start ∧
      (freePages a).Perm (blockPages (p, layout) ++ freePages a') := by
  have hok : ∀ {o b}, Gives id (alloc kend layout) a o b → o = .ok p ∧ b = a' := by
    intro o b hg
    obtain ⟨h1, h2⟩ := hg a rfl
    rw [hrun] at h1 h2
    exact ⟨h1.symm, h2.symm⟩
  by_cases halign : layout.align ≤ pgsize
  · by_cases hsize : layout.size + 4096 < 2 ^ 32
    · rcases allocate_carves h hsize with ⟨q, l', hc, hg⟩ | ⟨_, hg⟩
      · obtain ⟨ho, hstate⟩ :=
          hok ((gives_require halign).then (ends_mapErr (hg.ends ⟨rfl, rfl⟩)))
        have hq : q = p := Outcome.ok.inj ho
        subst hq
        subst hstate
        obtain ⟨hal, hperm⟩ := hc.pages h.aligned
        refine ⟨⟨hal, hpos, hsize, ?_⟩, (h.carved hc).2, rfl, hperm⟩
        intro x hx
        exact h.page_bounds (hperm.symm.subset (List.mem_append_left _ hx))
      · obtain ⟨ho, _⟩ := hok ((gives_require halign).then (ends_mapErr (hg.ends ⟨rfl, rfl⟩)))
        cases ho
    · obtain ⟨ho, _⟩ := hok (alloc_overflows h halign hsize)
      cases ho
  · obtain ⟨ho, _⟩ := hok (alloc_overAligned a (Nat.lt_of_not_le halign))
    cases ho

/-- **A sequence of successful allocations**, whatever usable sizes `layouts'` its blocks will be
    given back with. -/
theorem allocAll_blocks {layouts layouts' : List Layout}
    (hu : List.Forall₂ UsableFor layouts layouts') :
    ∀ {ps : List Nat} {a a' : Allocator}, FreeInv kend a → (∀ layout ∈ layouts, 0 < layout.size) →
    allocAll kend layouts a = (.ok ps, a') →
    (∀ b ∈ ps.zip layouts', Block kend b) ∧ FreeInv kend a' ∧ a'.start = a.start ∧
      (freePages a).Perm ((ps.zip layouts').flatMap blockPages ++ freePages a') := by
  induction hu with
  | nil =>
    intro ps a a' h _ hrun
    have hpure : (Outcome.ok (ε := AllocErr) ([] : List Nat), a) = (.ok ps, a') := hrun
    cases hpure
    exact ⟨nofun, h, rfl, List.Perm.refl _⟩
  | @cons layout layout' layouts layouts' hu _ ih =>
    intro ps a a' h hpos hrun
    obtain ⟨p, b, hp, hrest⟩ := bind_eq_ok hrun
    obtain ⟨qs, c, hqs, hlast⟩ := bind_eq_ok hrest
    have hpure : (Outcome.ok (ε := AllocErr) (p :: qs), c) = (.ok ps, a') := hlast
    cases hpure
    obtain ⟨hblock, hinv, hstart, hperm⟩ := alloc_block h (hpos layout List.mem_cons_self) hp
    obtain ⟨hblock', hsame⟩ := hblock.usable hu
    obtain ⟨hblocks, hinv', hstart', hperm'⟩ :=
      ih hinv (fun l hl => hpos l (List.mem_cons_of_mem layout hl)) hqs
    refine ⟨?_, hinv', hstart'.trans hstart, ?_⟩
    · intro x hx
      rw [List.zip_cons_cons] at hx
      cases List.mem_cons.mp hx with
      | inl e =>
        rw [e]
        exact hblock'
      | inr hx => exact hblocks x hx
    · rw [List.zip_cons_cons, List.flatMap_cons, List.append_assoc, hsame]
      exact hperm.trans (hperm'.append_left _)

/-- **Giving back blocks** whose pages are not free, nor in two of them. -/
theorem deallocAll_gives : ∀ {bs : List (Nat × Layout)} {a : Allocator}, FreeInv kend a →
    (∀ b ∈ bs, Block kend b) → (bs.flatMap blockPages ++ freePages a).Nodup →
    ∃ a', Gives id (deallocAll kend bs) a (.ok ()) a' ∧ a'.start = a.start ∧ FreeInv kend a' ∧
      (freePages a').Perm (bs.flatMap blockPages ++ freePages a)
  | [], a, h, _, _ => ⟨a, gives_pure (), rfl, h, List.Perm.refl _⟩
  | b :: bs, a, h, hblocks, hnd => by
      have hperm₀ : ((b :: bs).flatMap blockPages ++ freePages a).Perm
          (bs.flatMap blockPages ++ (blockPages b ++ freePages a)) := by
        rw [List.flatMap_cons, ← List.append_assoc]
        exact List.perm_append_comm.append_right _
      have hnd₀ := hperm₀.nodup_iff.mp hnd
      have hfresh : ∀ q ∈ blockPages b, q ∉ freePages a := by
        intro q hq hq'
        exact (List.nodup_append.mp (List.nodup_append.mp hnd₀).2.1).2.2 q hq q hq' rfl
      obtain ⟨a₁, hg, hstart, hinv, hperm⟩ :=
        (hblocks b List.mem_cons_self).dealloc h hfresh
      have hnd₁ : (bs.flatMap blockPages ++ freePages a₁).Nodup :=
        (hperm.append_left _).nodup_iff.mpr hnd₀
      obtain ⟨a₂, hg', hstart', hinv', hperm'⟩ :=
        deallocAll_gives hinv (fun x hx => hblocks x (List.mem_cons_of_mem b hx)) hnd₁
      exact ⟨a₂, hg.then hg', hstart'.trans hstart, hinv',
        (hperm'.trans (hperm.append_left _)).trans hperm₀.symm⟩

/-- **Allocations given back in any order, at any usable size, leave the allocator as it was.** -/
theorem FreeInv.undo {a a' : Allocator} (h : FreeInv kend a) {layouts layouts' : List Layout}
    {ps : List Nat} (hpos : ∀ layout ∈ layouts, 0 < layout.size)
    (hrun : allocAll kend layouts a = (.ok ps, a')) (hu : List.Forall₂ UsableFor layouts layouts')
    {bs : List (Nat × Layout)} (hbs : bs.Perm (ps.zip layouts')) :
    deallocAll kend bs a' = (.ok (), a) := by
  obtain ⟨hblocks, hinv, hstart, hperm⟩ := allocAll_blocks hu h hpos hrun
  have hpages : (freePages a).Perm (bs.flatMap blockPages ++ freePages a') :=
    hperm.trans ((hbs.flatMap_right blockPages).symm.append_right _)
  obtain ⟨b, hg, hstart', hinv', hperm'⟩ := deallocAll_gives hinv
    (fun x hx => hblocks x (hbs.mem_iff.mp hx)) (hpages.nodup_iff.mp h.nodup)
  have hb : b = a := hinv'.eq_of_pages h (hstart'.trans hstart) (hperm'.trans hpages.symm)
  obtain ⟨hok, hstate⟩ := hg a' rfl
  exact Prod.ext hok (hstate.trans hb)

end Calls

/-! ## 3. In every run -/

/-- **`dealloc` undoes `alloc`.** In every run of calls: an allocation of at least one byte that
    succeeds, given back with any size `usable_size` admits, leaves the allocator exactly as it was
    before, the list of nodes with their sizes and order and the length; and so does a sequence of
    allocations that succeed, given back in any order. No assertion fails on the way. -/
theorem dealloc_undoes_alloc {kend addr : Nat} {cs : List Call} {w : World} (hk : kernbase ≤ kend)
    (ha : addr < kend) (h : Trace (CallStep kend) (World.start addr) cs w) :
    (∀ layout layout' p a', 0 < layout.size → alloc kend layout w.allocator = (.ok p, a') →
      UsableFor layout layout' → dealloc kend p layout' a' = (.ok (), w.allocator)) ∧
    (∀ layouts layouts' ps a', (∀ layout ∈ layouts, 0 < layout.size) →
      allocAll kend layouts w.allocator = (.ok ps, a') →
      List.Forall₂ UsableFor layouts layouts' → ∀ bs : List (Nat × Layout),
        bs.Perm (ps.zip layouts') → deallocAll kend bs a' = (.ok (), w.allocator)) := by
  have hinv := (trace_owned hk ha h).free
  refine ⟨?_, fun layouts layouts' ps a' hpos hrun hu bs hbs => hinv.undo hpos hrun hu hbs⟩
  -- one allocation is a sequence of one
  intro layout layout' p a' hpos hrun hu
  have hall : allocAll kend [layout] w.allocator = (.ok [p], a') := by
    show andThen (alloc kend layout) _ w.allocator = _
    rw [andThen, hrun]
    rfl
  have hpos' : ∀ l ∈ [layout], 0 < l.size := by
    intro l hl
    rw [List.mem_singleton.mp hl]
    exact hpos
  have hundo : deallocAll kend [(p, layout')] a' = (.ok (), w.allocator) :=
    hinv.undo hpos' hall (.cons hu .nil) (List.Perm.refl _)
  obtain ⟨_, b, hdealloc, hlast⟩ := bind_eq_ok hundo
  have hb : b = w.allocator := congrArg Prod.snd hlast
  rw [hb] at hdealloc
  exact hdealloc

/-- A byte takes the first of three runs, two pages take the second. Given back, the pages first and
    the byte as a whole page, they are runs of their own again. -/
theorem dealloc_undoes_alloc_holes :
    (allocAll kernlink [⟨1, 1⟩, ⟨8192, 1⟩] (after holes).allocator).1 =
      .ok [kernlink + 0x2000, kernlink + 0x4000] ∧
    deallocAll kernlink [(kernlink + 0x4000, ⟨8192, 1⟩), (kernlink + 0x2000, ⟨4096, 1⟩)]
        (allocAll kernlink [⟨1, 1⟩, ⟨8192, 1⟩] (after holes).allocator).2 =
      (.ok (), (after holes).allocator) := by
  have hok : (allocAll kernlink [⟨1, 1⟩, ⟨8192, 1⟩] (after holes).allocator).1 =
      .ok [kernlink + 0x2000, kernlink + 0x4000] := by decide +kernel
  refine ⟨hok, ?_⟩
  refine (dealloc_undoes_alloc (by decide) (by decide) holes_trace).2 [⟨1, 1⟩, ⟨8192, 1⟩]
    [⟨4096, 1⟩, ⟨8192, 1⟩] _ _ (by decide) (Prod.ext hok rfl) ?_ _ (List.Perm.swap _ _ [])
  exact .cons ⟨(1, 4096), by decide, by decide, by decide⟩
    (.cons ⟨(8192, 8192), by decide, by decide, by decide⟩ .nil)

end Sprocket.Kalloc
