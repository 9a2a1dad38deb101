/-
  File:      Sprocket/Kalloc/FirstFit.lean
  Subject:   `allocate` IS FIRST FIT, complete and clean in its failures.

  The fit test of the source is split in two because the stored size leaves out the header page:
  a node with a page to spare gives its last pages and keeps its header, a node that fits exactly
  is unlinked. On the list the two are one operation (`Carved.split`): the nodes before are too
  short, the node gives its last pages, the nodes behind stay. That the list holds exactly the
  maximal runs of free pages makes this a statement about the memory:

  * `allocate_firstFit` -- in every run of calls, a request fails exactly when no maximal run of
    free pages is long enough, and then nothing changes; otherwise it takes the last pages of the
    lowest run that is;
  * `alloc_served_iff` -- sizes within a page of `2 ^ 32` are the only ones for which a request is
    neither served nor refused.
-/
import Sprocket.Kalloc.PageRuns

namespace Sprocket.Kalloc

open Prog

/-- What remains of a node that gave its last `n` pages. -/
def Range.left (r : Range) (n : Nat) : List Range :=
  if r.size + 1 = n then [] else [{ r with size := r.size - n }]

/-- **One node gave its last pages**, the first one on the list that is long enough. -/
theorem Carved.split {n p : Nat} {l l' : List Range} (h : Carved n l p l') :
    ∃ before r behind, l = before ++ r :: behind ∧ (∀ s ∈ before, s.size + 1 < n) ∧
      n ≤ r.size + 1 ∧ p = r.addr + 4096 * (r.size + 1 - n) ∧
      l' = before ++ (r.left n ++ behind) := by
  induction h with
  | @tail r l hn =>
    have hleft : r.left n = [{ r with size := r.size - n }] := if_neg (by omega)
    refine ⟨[], r, l, rfl, nofun, by omega, rfl, ?_⟩
    rw [hleft]
    rfl
  | @whole r l hn =>
    have hleft : r.left n = [] := if_pos hn
    refine ⟨[], r, l, rfl, nofun, by omega, ?_, ?_⟩
    · rw [hn, Nat.sub_self]
      rfl
    · rw [hleft]
      rfl
  | @skip r l l' p hn _ ih =>
    obtain ⟨before, s, behind, hl, hshort, hlong, hp, hl'⟩ := ih
    refine ⟨r :: before, s, behind, by rw [hl]; rfl, ?_, hlong, hp, by rw [hl']; rfl⟩
    intro t ht
    cases List.mem_cons.mp ht with
    | inl e =>
      rw [e]
      exact hn
    | inr hb => exact hshort t hb

/-- The pages that belong to a region and to no live allocation. -/
abbrev World.Free (w : World) (q : Nat) : Prop := q ∈ w.donatedPages ∧ q ∉ w.livePages

theorem Owned.free_eq {kend : Nat} {w : World} (h : Owned kend w) :
    w.Free = (· ∈ freePages w.allocator) :=
  funext fun q => propext (h.mem_free q).symm

/-- The maximal runs of free pages are the runs of the nodes. -/
theorem Owned.run_of_maximal {kend : Nat} {w : World} (h : Owned kend w) {u : Run}
    (hu : Run.IsMaximal w.Free u) : ∃ r ∈ w.allocator.ranges, r.run = u := by
  rw [h.free_eq] at hu
  have hsep := h.free.sorted.separated h.free.aligned
  exact List.mem_map.mp ((hsep.mem_iff_isMaximal u).mpr hu)

/-- The node that gave the pages is the first fit. -/
theorem Owned.firstFit {kend n : Nat} {w : World} (h : Owned kend w) {before behind : List Range}
    {r : Range} (hl : w.allocator.ranges = before ++ r :: behind)
    (hshort : ∀ s ∈ before, s.size + 1 < n) (hlong : n ≤ r.size + 1) :
    Run.IsFirstFit w.Free n r.run := by
  have hsep := h.free.sorted.separated h.free.aligned
  rw [h.free_eq]
  refine hsep.isFirstFit (by rw [hl, List.map_append, List.map_cons]) ?_ hlong
  intro u hu
  obtain ⟨s, hs, e⟩ := List.mem_map.mp hu
  rw [← e]
  exact hshort s hs

/-- **Exactly the pages that were taken are no longer free.** -/
theorem Owned.mem_carved {kend n p : Nat} {w : World} (h : Owned kend w) {l' : List Range}
    (hc : Carved n w.allocator.ranges p l') (q : Nat) :
    q ∈ pagesOf l' ↔ w.Free q ∧ q ∉ pagesAt p n := by
  obtain ⟨_, hperm⟩ := hc.pages h.free.aligned
  have hnd : (pagesAt p n ++ pagesOf l').Nodup := hperm.nodup_iff.mp h.free.nodup
  have hdisj := (List.nodup_append.mp hnd).2.2
  have hfree : w.Free q ↔ q ∈ pagesAt p n ∨ q ∈ pagesOf l' := by
    rw [h.free_eq, ← List.mem_append]
    exact hperm.mem_iff
  rw [hfree]
  constructor
  · intro hq
    exact ⟨Or.inr hq, fun hq' => hdisj q hq' q hq rfl⟩
  · intro hq
    exact hq.1.resolve_left hq.2

/-- The last `n` pages of a node. -/
theorem mem_lastPages {r : Range} {n : Nat} (hlong : n ≤ r.size + 1) (q : Nat) :
    q ∈ pagesAt (r.addr + 4096 * (r.size + 1 - n)) n ↔ r.run.hi - n ≤ q ∧ q < r.run.hi := by
  rw [pagesAt, List.mem_range'_1]
  show _ ↔ r.addr / 4096 + (r.size + 1) - n ≤ q ∧ q < r.addr / 4096 + (r.size + 1)
  omega

/-- **First fit.** In every run of calls, for a request whose number of pages `n` is computed
    without overflow: `allocate` fails exactly when every maximal run of free pages is shorter than
    `n`, and then the allocator is as it was. Otherwise it takes the last `n` pages of the lowest
    maximal run that is not: that node keeps the pages before them or is unlinked if there are
    none, the other nodes stay as they are, and exactly these pages are no longer free. -/
theorem allocate_firstFit {kend addr : Nat} {cs : List Call} {w : World} (hk : kernbase ≤ kend)
    (ha : addr < kend) (h : Trace (CallStep kend) (World.start addr) cs w) {size : Nat}
    (hsize : size + pgsize < 2 ^ 32) :
    ((allocate kend size w.allocator).1 = .err () ↔
      ∀ u, Run.IsMaximal w.Free u → u.len < pagesFor size) ∧
    ((allocate kend size w.allocator).1 = .err () →
      (allocate kend size w.allocator).2 = w.allocator) ∧
    ((allocate kend size w.allocator).1 ≠ .err () → ∃ before r behind,
      w.allocator.ranges = before ++ r :: behind ∧
      Run.IsFirstFit w.Free (pagesFor size) r.run ∧
      allocate kend size w.allocator = (.ok (r.addr + 4096 * (r.size + 1 - pagesFor size)),
        { w.allocator with
          ranges := before ++ (r.left (pagesFor size) ++ behind)
          length := w.allocator.length - pagesFor size }) ∧
      ∀ q, q ∈ freePages (allocate kend size w.allocator).2 ↔
        w.Free q ∧ ¬ (r.run.hi - pagesFor size ≤ q ∧ q < r.run.hi)) := by
  have ho := trace_owned hk ha h
  rcases allocate_carves ho.free hsize with ⟨p, l', hc, hg⟩ | ⟨hshort, hg⟩
  · obtain ⟨before, r, behind, hl, hbefore, hlong, hp, hl'⟩ := hc.split
    obtain ⟨hok, hstate⟩ := hg w.allocator rfl
    have hrun : allocate kend size w.allocator = (.ok p,
        { w.allocator with ranges := l', length := w.allocator.length - pagesFor size }) :=
      Prod.ext hok hstate
    have hfit := ho.firstFit hl hbefore hlong
    have hne : (allocate kend size w.allocator).1 ≠ .err () := by
      rw [hrun]
      nofun
    refine ⟨⟨fun he => absurd he hne, ?_⟩, fun he => absurd he hne, fun _ => ?_⟩
    · intro hall
      exact absurd (hall r.run hfit.maximal) (Nat.not_lt_of_le hfit.enough)
    · refine ⟨before, r, behind, hl, hfit, by rw [hrun, hp, hl'], ?_⟩
      intro q
      have hcarved := ho.mem_carved hc q
      rw [hp, mem_lastPages hlong] at hcarved
      rw [hrun]
      exact hcarved
  · obtain ⟨herr, hstate⟩ := hg w.allocator rfl
    refine ⟨⟨fun _ => ?_, fun _ => herr⟩, fun _ => hstate, fun hne => absurd herr hne⟩
    intro u hu
    obtain ⟨r, hr, e⟩ := ho.run_of_maximal hu
    rw [← e]
    exact hshort r hr

/-- Runs of one, two and two free pages: a request for three pages fails and changes nothing, one
    for two pages passes over the first run and takes the second whole. -/
theorem allocate_firstFit_holes :
    (allocate kernlink 8193 (after holes).allocator).2 = (after holes).allocator ∧
    (allocate kernlink 8192 (after holes).allocator).1 = .ok (kernlink + 0x4000) ∧
    ∃ r : Range, Run.IsFirstFit (after holes).Free 2 r.run ∧
      r.addr + 4096 * (r.size + 1 - 2) = kernlink + 0x4000 := by
  have hbig := allocate_firstFit (by decide) (by decide) holes_trace
    (show 8193 + pgsize < 2 ^ 32 by decide)
  have hsmall := allocate_firstFit (by decide) (by decide) holes_trace
    (show 8192 + pgsize < 2 ^ 32 by decide)
  have hok : (allocate kernlink 8192 (after holes).allocator).1 = .ok (kernlink + 0x4000) := by
    decide +kernel
  have hne : (allocate kernlink 8192 (after holes).allocator).1 ≠ .err () := by
    intro herr
    cases hok.symm.trans herr
  obtain ⟨_, r, _, _, hfit, hrun, _⟩ := hsmall.2.2 hne
  rw [hrun] at hok
  exact ⟨hbig.2.1 (by decide +kernel), by rw [hrun]; exact hok, r, hfit, Outcome.ok.inj hok⟩

/-- What a request may come to: it is refused and nothing changes, or it gets the pages of its size
    out of the free pages, and they cover its size. -/
def Served (kend : Nat) (a : Allocator) (layout : Layout) : Prop :=
  alloc kend layout a = (.err (.exhausted layout), a) ∨
  ∃ n p a', (sizeToPages layout.size : Prog Unit Unit Nat) () = (.ok n, ()) ∧
    alloc kend layout a = (.ok p, a') ∧ p % pgsize = 0 ∧ layout.size ≤ n * pgsize ∧
    (freePages a).Perm (pagesAt p n ++ freePages a')

theorem le_pagesFor (size : Nat) : size ≤ pagesFor size * pgsize := by
  unfold pagesFor pgsize
  omega

/-- **Large requests.** In every run of calls a request that passes the assertion on its alignment
    is served exactly if a page more than its size is below `2 ^ 32`. For every other one `alloc`
    panics in `size_to_pages`, which adds the page before it is known that no memory is as large. -/
theorem alloc_served_iff {kend addr : Nat} {cs : List Call} {w : World} (hk : kernbase ≤ kend)
    (ha : addr < kend) (h : Trace (CallStep kend) (World.start addr) cs w) {layout : Layout}
    (halign : layout.align ≤ pgsize) :
    Served kend w.allocator layout ↔ layout.size + pgsize < 2 ^ 32 := by
  have hinv := (trace_owned hk ha h).free
  constructor
  · intro hserved
    refine Decidable.byContradiction fun hsize => ?_
    obtain ⟨hpanic, _⟩ := alloc_overflows hinv halign hsize w.allocator rfl
    rcases hserved with hrun | ⟨_, _, _, _, hrun, _⟩ <;>
    · rw [hrun] at hpanic
      cases hpanic
  · intro hsize
    rcases alloc_gives hinv halign hsize with ⟨p, a', hg, _, hp, hperm⟩ | hg
    · have hpages : Gives id (sizeToPages layout.size : Prog Unit Unit Nat) ()
          (.ok (pagesFor layout.size)) () := sizeToPages_gives hsize
      exact Or.inr ⟨_, p, a', Prod.ext_iff.mpr (hpages () rfl),
        Prod.ext_iff.mpr (hg w.allocator rfl), hp, le_pagesFor layout.size, hperm⟩
    · exact Or.inl (Prod.ext_iff.mpr (hg w.allocator rfl))

/-- With one free page, the largest size that is served is refused. -/
theorem alloc_served_onePage :
    Served kernlink (donateOne.perform kernlink (World.start kernbase)).2.allocator
      ⟨2 ^ 32 - 4097, 1⟩ :=
  (alloc_served_iff (by decide) (by decide) donateOne_trace (by decide)).mpr (by decide)

/-- The next one is not refused: the kernel stops. -/
theorem alloc_panics_onePage :
    (alloc kernlink ⟨2 ^ 32 - 4096, 1⟩
      (donateOne.perform kernlink (World.start kernbase)).2.allocator).1 = .panic := by
  decide

end Sprocket.Kalloc
