/-
  File:      Sprocket/Kalloc/FreeList.lean
  Subject:   THE FREE LIST OF THE ALLOCATOR: sorted, coalesced, and what each call does to it.

  A node covers the bytes from its header to `stop`. `Sorted` says that every node ends strictly
  before the next one begins, so that no two nodes touch. Where a freed range goes, and what it
  merges with, is decided by the loop of `free_range` and two tests; `insertFrom_gives` says that
  they keep the list sorted and add exactly the freed bytes, whatever the neighbours are. The
  sentinel takes part in the loop like any other node.

  `FreeInv kend a` is what holds between calls. Under it

  * `verify_gives` -- `verify` never fires;
  * `freeRange_gives` -- freeing pages that are not free adds these pages;
  * `FreeInv.eq_of_pages` -- the free pages determine the list;
  * `allocate_gives` -- allocating takes the last pages of the first node that is large enough,
    or fails with nothing changed when there is none.
-/
import Mathlib.Data.List.Perm.Subperm
import Mathlib.Data.List.Nodup
import Sprocket.Lib.Runs
import Sprocket.Kalloc.Allocator

namespace Sprocket.Kalloc

open Prog

/-! ## 1. Nodes and the bytes they cover -/

/-- The address behind the last page of the node. -/
@[irreducible] def Range.stop (r : Range) : Nat := r.addr + 4096 * (r.size + 1)

theorem stop_eq (r : Range) : r.stop = r.addr + 4096 * (r.size + 1) := by
  unfold Range.stop
  rfl

/-- The address `y` lies in the pages of the node. -/
def Range.Covers (r : Range) (y : Nat) : Prop := r.addr ≤ y ∧ y < r.stop

/-- Some node of the list covers the address. -/
def Covered (l : List Range) (y : Nat) : Prop := ∃ r ∈ l, r.Covers y

/-- **Every node ends strictly before the next ones begin.** -/
def Sorted (l : List Range) : Prop := l.Pairwise fun a b => a.stop < b.addr

/-- The arithmetic of the source on the node stays in range. -/
structure Range.Fits (r : Range) : Prop where
  bytes : 4096 * (r.size + 1) < 2 ^ 31
  stop : r.stop < 2 ^ 32

theorem covered_cons {r : Range} {l : List Range} {y : Nat} :
    Covered (r :: l) y ↔ r.Covers y ∨ Covered l y := by
  unfold Covered
  simp only [List.mem_cons, exists_eq_or_imp]

theorem addr_lt_stop (r : Range) : r.addr < r.stop := by
  rw [stop_eq]
  omega

/-- A node joined with the one that begins where it ends. -/
def Range.join (a b : Range) : Range := { a with size := a.size + (b.size + 1) }

theorem stop_join {a b : Range} (h : a.stop = b.addr) : (a.join b).stop = b.stop := by
  have hab : (a.join b).stop = a.addr + 4096 * (a.size + (b.size + 1) + 1) := stop_eq _
  have ha := stop_eq a
  have hb := stop_eq b
  omega

theorem covers_join {a b : Range} (h : a.stop = b.addr) (y : Nat) :
    (a.join b).Covers y ↔ a.Covers y ∨ b.Covers y := by
  have ha := addr_lt_stop a
  have hb := addr_lt_stop b
  have haddr : (a.join b).addr = a.addr := rfl
  unfold Range.Covers
  rw [stop_join h, haddr]
  omega

section Arithmetic

variable {σ υ ε : Type} {view : σ → υ} {v : υ}

theorem offset_gives {r : Range} {n : Nat} (hn : 4096 * n < 2 ^ 31)
    (h : r.addr + 4096 * n < 2 ^ 32) :
    Gives view (r.offset n : Prog σ ε Nat) v (.ok (r.addr + 4096 * n)) v := by
  have e : (n : Int) * (pgsize : Int) = ((4096 * n : Nat) : Int) := by
    simp only [pgsize]
    omega
  unfold Range.offset
  rw [e]
  refine (gives_checkedInt (by omega)).then ?_
  rw [ptrOffset_small h]
  exact gives_pure _

theorem endAddr_gives {r : Range} (h : r.Fits) :
    Gives view (r.endAddr : Prog σ ε Nat) v (.ok r.stop) v := by
  have hb := h.bytes
  have hs := h.stop
  rw [stop_eq] at hs ⊢
  have e : toSigned r.size + 1 = ((r.size + 1 : Nat) : Int) := by
    rw [toSigned_small (by omega)]
    omega
  unfold Range.endAddr
  rw [e]
  exact (gives_checkedInt (by omega)).then (offset_gives hb hs)

/-! ## 2. Inserting a freed range -/

/-- Merging with the next node: the freed range in front of a list that lies above it. -/
theorem mergeNext_gives (ε : Type) (view : σ → υ) (v : υ) {new : Range} (hnew : new.Fits)
    {next : List Range}
    (hnext : ∀ r ∈ next, r.Fits) (hs : Sorted next) (habove : ∀ r ∈ next, new.stop ≤ r.addr) :
    ∃ m rest, Gives view (mergeNext new next : Prog σ ε (Range × List Range)) v (.ok (m, rest)) v ∧
      m.addr = new.addr ∧ m.size < 2 ^ 20 ∧ Sorted (m :: rest) ∧ (∀ r ∈ rest, r ∈ next) ∧
      ∀ y, Covered (m :: rest) y ↔ Covered next y ∨ new.Covers y := by
  have hb := hnew.bytes
  cases next with
  | nil =>
    refine ⟨new, [], gives_pure _, rfl, by omega, List.pairwise_singleton _ _, fun r hr => hr, ?_⟩
    intro y
    rw [covered_cons, or_comm]
  | cons n rest =>
    obtain ⟨hn, hrest⟩ := List.pairwise_cons.mp hs
    have hbn := (hnext n List.mem_cons_self).bytes
    have hge := habove n List.mem_cons_self
    by_cases htouch : new.stop = n.addr
    · refine ⟨new.join n, rest, ?_, rfl, ?_, ?_, fun r hr => List.mem_cons_of_mem n hr, ?_⟩
      · unfold mergeNext
        refine (endAddr_gives hnew).then ?_
        rw [if_pos htouch]
        exact (gives_checkedAdd (by omega)).then ((gives_checkedAdd (by omega)).then (gives_pure _))
      · show new.size + (n.size + 1) < 2 ^ 20
        omega
      · refine List.pairwise_cons.mpr ⟨fun r hr => ?_, hrest⟩
        rw [stop_join htouch]
        exact hn r hr
      · intro y
        rw [covered_cons, covers_join htouch, covered_cons, or_assoc, or_comm]
    · refine ⟨new, n :: rest, ?_, rfl, by omega, ?_, fun r hr => hr, ?_⟩
      · unfold mergeNext
        refine (endAddr_gives hnew).then ?_
        rw [if_neg htouch]
        exact gives_pure _
      · refine List.pairwise_cons.mpr ⟨fun r hr => ?_, hs⟩
        rcases List.mem_cons.mp hr with rfl | hr
        · omega
        · have h1 := hn r hr
          have h2 := addr_lt_stop n
          omega
      · intro y
        rw [covered_cons, or_comm]

/-- **The freed range is in the list**: `prev` and `rest` became `prev'` and `rest'`. -/
structure Inserted (new prev : Range) (rest : List Range) (prev' : Range) (rest' : List Range) :
    Prop where
  addr : prev'.addr = prev.addr
  same : prev.stop < new.addr → prev' = prev
  sorted : Sorted (prev' :: rest')
  cover : ∀ y, Covered (prev' :: rest') y ↔ Covered (prev :: rest) y ∨ new.Covers y
  addrs : ∀ r ∈ rest', r.addr = new.addr ∨ ∃ s ∈ rest, r.addr = s.addr

theorem insertHere_gives {new prev : Range} (hnew : new.Fits) (hprev : prev.Fits)
    {next : List Range} (hnext : ∀ r ∈ next, r.Fits) (hs : Sorted (prev :: next))
    (hbelow : prev.stop ≤ new.addr) (habove : ∀ r ∈ next, new.stop ≤ r.addr) :
    ∃ prev' rest', Gives view (insertHere new prev next : Prog σ ε (Range × List Range)) v
      (.ok (prev', rest')) v ∧ Inserted new prev next prev' rest' := by
  obtain ⟨hp, hn⟩ := List.pairwise_cons.mp hs
  obtain ⟨m, rest, hm, hmaddr, hmsize, hmsorted, hmsub, hmcover⟩ :=
    mergeNext_gives ε view v hnew hnext hn habove
  obtain ⟨hmrest, hrest⟩ := List.pairwise_cons.mp hmsorted
  have hb := hprev.bytes
  by_cases htouch : prev.stop = m.addr
  · refine ⟨prev.join m, rest, ?_, rfl, fun hlt => ?_, ?_, ?_, ?_⟩
    · unfold insertHere mergePrev
      refine hm.then ((endAddr_gives hprev).then ?_)
      dsimp only
      rw [if_pos htouch]
      exact (gives_checkedAdd (by omega)).then ((gives_checkedAdd (by omega)).then (gives_pure _))
    · omega
    · refine List.pairwise_cons.mpr ⟨fun r hr => ?_, hrest⟩
      rw [stop_join htouch]
      exact hmrest r hr
    · intro y
      have h1 := hmcover y
      rw [covered_cons] at h1
      rw [covered_cons, covers_join htouch, covered_cons, or_assoc, h1, or_assoc]
    · exact fun r hr => Or.inr ⟨r, hmsub r hr, rfl⟩
  · refine ⟨prev, m :: rest, ?_, rfl, fun _ => rfl, ?_, ?_, ?_⟩
    · unfold insertHere mergePrev
      refine hm.then ((endAddr_gives hprev).then ?_)
      rw [if_neg htouch]
      exact gives_pure _
    · refine List.pairwise_cons.mpr ⟨fun r hr => ?_, hmsorted⟩
      rcases List.mem_cons.mp hr with rfl | hr
      · omega
      · exact hp r (hmsub r hr)
    · intro y
      rw [covered_cons, hmcover, covered_cons, or_assoc]
    · intro r hr
      rcases List.mem_cons.mp hr with rfl | hr
      · exact Or.inl hmaddr
      · exact Or.inr ⟨r, hmsub r hr, rfl⟩

/-- **The loop of `free_range` inserts the freed range**, if it does not overlap a node. The
    induction follows the list; the sentinel is the first `prev`. -/
theorem insertFrom_gives (ε : Type) (view : σ → υ) (v : υ) {new : Range} (hnew : new.Fits) :
    ∀ (rest : List Range) {prev : Range},
    prev.Fits → (∀ r ∈ rest, r.Fits) → Sorted (prev :: rest) → prev.stop ≤ new.addr →
    (∀ r ∈ rest, r.stop ≤ new.addr ∨ new.stop ≤ r.addr) →
    ∃ prev' rest', Gives view (insertFrom new prev rest : Prog σ ε (Range × List Range)) v
      (.ok (prev', rest')) v ∧ Inserted new prev rest prev' rest'
  | [], prev, hprev, hrest, hs, hbelow, _ => by
      unfold insertFrom
      exact insertHere_gives hnew hprev hrest hs hbelow fun r hr => absurd hr List.not_mem_nil
  | n :: rest, prev, hprev, hrest, hs, hbelow, hdisj => by
      obtain ⟨hp, hn⟩ := List.pairwise_cons.mp hs
      obtain ⟨hnrest, hrest'⟩ := List.pairwise_cons.mp hn
      have hlt := addr_lt_stop prev
      unfold insertFrom
      by_cases hplace : new.addr < n.addr
      · rw [if_pos ⟨hplace, by omega⟩]
        -- the first node is above the freed range, so all of them are
        have hfirst : new.stop ≤ n.addr := by
          have h1 := addr_lt_stop n
          rcases hdisj n List.mem_cons_self with h | h <;> omega
        refine insertHere_gives hnew hprev hrest hs hbelow fun r hr => ?_
        rcases List.mem_cons.mp hr with rfl | hr
        · exact hfirst
        · have h1 := hnrest r hr
          have h2 := addr_lt_stop n
          omega
      · rw [if_neg fun h => hplace h.1]
        have hnbelow : n.stop ≤ new.addr := by
          have h1 := addr_lt_stop new
          rcases hdisj n List.mem_cons_self with h | h <;> omega
        obtain ⟨n', rest'', hg, hi⟩ := insertFrom_gives ε view v hnew rest
          (hrest n List.mem_cons_self)
          (fun r hr => hrest r (List.mem_cons_of_mem n hr)) hn hnbelow
          fun r hr => hdisj r (List.mem_cons_of_mem n hr)
        have hpn := hp n List.mem_cons_self
        refine ⟨prev, n' :: rest'', hg.then (gives_pure _), rfl, fun _ => rfl, ?_, ?_, ?_⟩
        · refine List.pairwise_cons.mpr ⟨fun r hr => ?_, hi.sorted⟩
          have haddr := hi.addr
          rcases List.mem_cons.mp hr with rfl | hr
          · omega
          · have h1 := (List.pairwise_cons.mp hi.sorted).1 r hr
            have h2 := addr_lt_stop n'
            omega
        · intro y
          rw [covered_cons, hi.cover, ← or_assoc, ← covered_cons]
        · intro r hr
          rcases List.mem_cons.mp hr with rfl | hr
          · exact Or.inr ⟨n, List.mem_cons_self, hi.addr⟩
          · rcases hi.addrs r hr with h | ⟨s, hs', h⟩
            · exact Or.inl h
            · exact Or.inr ⟨s, List.mem_cons_of_mem n hs', h⟩

end Arithmetic

/-! ## 3. Pages -/

/-- The run of pages a node stands for. -/
def Range.run (r : Range) : Run := ⟨r.addr / 4096, r.size + 1, Nat.succ_pos _⟩

/-- The pages of a list of nodes, in the order of the list. -/
def pagesOf (l : List Range) : List Nat := Run.elemsOf (l.map Range.run)

/-- The free pages. -/
def freePages (a : Allocator) : List Nat := pagesOf a.ranges

/-- The `n` pages from address `addr` on. -/
def pagesAt (addr n : Nat) : List Nat := List.range' (addr / 4096) n

/-- The lowest address that may be donated: a page behind `end`. -/
def lowest (kend : Nat) : Nat := roundUp (kend + 4096)

/-- The end of the memory that may be donated. -/
abbrev highest : Nat := kernbase + phystop

/-- **What holds between calls.** The list is sorted, its nodes lie in the memory that may be
    donated, the sentinel is below it and has no pages, and `length` counts the free pages. -/
structure FreeInv (kend : Nat) (a : Allocator) : Prop where
  kend_ge : kernbase ≤ kend
  start_low : a.start.addr < kend
  start_size : a.start.size = 0
  sorted : Sorted a.ranges
  aligned : ∀ r ∈ a.ranges, r.addr % 4096 = 0
  low : ∀ r ∈ a.ranges, lowest kend ≤ r.addr
  high : ∀ r ∈ a.ranges, r.stop ≤ highest
  length : a.length = (freePages a).length

/-- A page of an aligned node, as an address the node covers. -/
theorem run_covers {r : Range} (h : r.addr % 4096 = 0) (q : Nat) :
    (r.run.lo ≤ q ∧ q < r.run.hi) ↔ r.Covers (4096 * q) := by
  have hs := stop_eq r
  unfold Range.run Run.hi Range.Covers
  dsimp only
  omega

theorem mem_pagesAt {r : Range} (h : r.addr % 4096 = 0) (q : Nat) :
    q ∈ pagesAt r.addr (r.size + 1) ↔ r.Covers (4096 * q) := by
  rw [← run_covers h]
  exact Run.mem_elems (r := r.run)

theorem mem_pagesOf {l : List Range} (h : ∀ r ∈ l, r.addr % 4096 = 0) (q : Nat) :
    q ∈ pagesOf l ↔ Covered l (4096 * q) := by
  rw [pagesOf, Run.mem_elemsOf]
  constructor
  · rintro ⟨_, hmem, hq⟩
    obtain ⟨r, hr, rfl⟩ := List.mem_map.mp hmem
    exact ⟨r, hr, (run_covers (h r hr) q).mp hq⟩
  · rintro ⟨r, hr, hq⟩
    exact ⟨r.run, List.mem_map_of_mem hr, (run_covers (h r hr) q).mpr hq⟩

/-- A sorted list of aligned nodes is a separated list of runs. -/
theorem Sorted.separated {l : List Range} (hs : Sorted l) (h : ∀ r ∈ l, r.addr % 4096 = 0) :
    Run.Separated (l.map Range.run) := by
  unfold Run.Separated
  rw [List.pairwise_map]
  refine List.Pairwise.imp_of_mem (fun {a b} ha hb hlt => ?_) hs
  have h1 := h a ha
  have h2 := h b hb
  have h3 := stop_eq a
  unfold Range.run Run.hi
  dsimp only
  omega

theorem Sorted.nodup {l : List Range} (hs : Sorted l) (h : ∀ r ∈ l, r.addr % 4096 = 0) :
    (pagesOf l).Nodup :=
  (hs.separated h).nodup_elems

/-- Aligned nodes with one run are one node. -/
theorem range_eq_of_run {r s : Range} (hr : r.addr % 4096 = 0) (hs : s.addr % 4096 = 0)
    (h : r.run = s.run) : r = s := by
  have hlo : r.addr / 4096 = s.addr / 4096 := congrArg Run.lo h
  have hlen : r.size + 1 = s.size + 1 := congrArg Run.len h
  have haddr : r.addr = s.addr := by omega
  have hsize : r.size = s.size := by omega
  cases r
  cases s
  simp_all only

/-- A node is on the list exactly when its pages are a maximal run of free pages. -/
theorem FreeInv.mem_ranges {kend : Nat} {a : Allocator} (h : FreeInv kend a) (r : Range) :
    r ∈ a.ranges ↔ r.addr % 4096 = 0 ∧ Run.IsMaximal (· ∈ freePages a) r.run := by
  have hsep := h.sorted.separated h.aligned
  have hmax : Run.IsMaximal (· ∈ freePages a) r.run ↔ r.run ∈ a.ranges.map Range.run :=
    (hsep.mem_iff_isMaximal r.run).symm
  rw [hmax]
  constructor
  · intro hr
    exact ⟨h.aligned r hr, List.mem_map_of_mem hr⟩
  · intro hr
    obtain ⟨hal, hmem⟩ := hr
    obtain ⟨s, hs, e⟩ := List.mem_map.mp hmem
    rw [← range_eq_of_run (h.aligned s hs) hal e]
    exact hs

/-- **The free pages determine the allocator**, up to its sentinel. -/
theorem FreeInv.eq_of_pages {kend : Nat} {a b : Allocator} (ha : FreeInv kend a)
    (hb : FreeInv kend b) (hstart : a.start = b.start) (hpages : (freePages a).Perm (freePages b)) :
    a = b := by
  have hruns : a.ranges.map Range.run = b.ranges.map Range.run :=
    (ha.sorted.separated ha.aligned).eq_of_elems (hb.sorted.separated hb.aligned)
      fun q => hpages.mem_iff
  -- an aligned node can be read off its run
  have hback : ∀ {l : List Range}, (∀ r ∈ l, r.addr % 4096 = 0) →
      (l.map Range.run).map (fun u => (⟨4096 * u.lo, u.len - 1⟩ : Range)) = l := by
    intro l hl
    rw [List.map_map]
    refine (List.map_congr_left fun r hr => ?_).trans (List.map_id l)
    have haddr : 4096 * (r.addr / 4096) = r.addr := by
      have := hl r hr
      omega
    show (⟨4096 * (r.addr / 4096), r.size + 1 - 1⟩ : Range) = r
    rw [haddr]
    rfl
  have hranges : a.ranges = b.ranges := by
    rw [← hback ha.aligned, hruns, hback hb.aligned]
  have hlength : a.length = b.length := by
    rw [ha.length, hb.length, hpages.length_eq]
  cases a
  cases b
  simp_all

theorem FreeInv.nodup {kend : Nat} {a : Allocator} (h : FreeInv kend a) : (freePages a).Nodup :=
  h.sorted.nodup h.aligned

theorem fits_of_bounds {kend : Nat} (hk : kernbase ≤ kend) {r : Range} (hlow : lowest kend ≤ r.addr)
    (hhigh : r.stop ≤ highest) : r.Fits := by
  have hs := stop_eq r
  unfold lowest roundUp at hlow
  simp only [highest, kernbase, phystop] at hk hhigh
  constructor <;> omega

theorem FreeInv.fits {kend : Nat} {a : Allocator} (h : FreeInv kend a) {r : Range}
    (hr : r ∈ a.ranges) : r.Fits := fits_of_bounds h.kend_ge (h.low r hr) (h.high r hr)

/-- The pages that may be donated are few. -/
theorem length_le_of_low_high {kend : Nat} {l : List Nat} (hk : kernbase ≤ kend) (hnd : l.Nodup)
    (h : ∀ q ∈ l, lowest kend ≤ 4096 * q ∧ 4096 * q < highest) : l.length ≤ 0xE000 := by
  have hsub : l ⊆ List.range' (kernbase / 4096) 0xE000 := by
    intro q hq
    obtain ⟨h1, h2⟩ := h q hq
    rw [List.mem_range'_1]
    unfold lowest roundUp at h1
    simp only [highest, kernbase, phystop] at hk h2 ⊢
    omega
  have hlen := (hnd.subperm hsub).length_le
  rwa [List.length_range'] at hlen

theorem FreeInv.page_bounds {kend : Nat} {a : Allocator} (h : FreeInv kend a) {q : Nat}
    (hq : q ∈ freePages a) : lowest kend ≤ 4096 * q ∧ 4096 * q < highest := by
  obtain ⟨r, hr, h1, h2⟩ := (mem_pagesOf h.aligned q).mp hq
  exact ⟨Nat.le_trans (h.low r hr) h1, Nat.lt_of_lt_of_le h2 (h.high r hr)⟩

theorem FreeInv.length_le {kend : Nat} {a : Allocator} (h : FreeInv kend a) :
    a.length ≤ 0xE000 := by
  rw [h.length]
  exact length_le_of_low_high h.kend_ge h.nodup fun q hq => h.page_bounds hq

/-! ## 4. `verify` -/

theorem length_pagesOf_cons (r : Range) (l : List Range) :
    (pagesOf (r :: l)).length = r.size + 1 + (pagesOf l).length := by
  rw [pagesOf, List.map_cons, Run.elemsOf, List.flatMap_cons, List.length_append, Run.elems,
    List.length_range']
  rfl

theorem verifyFrom_gives {σ υ ε : Type} {view : σ → υ} {v : υ} {kend : Nat} :
    ∀ (l : List Range) (size : Nat), Sorted l → (∀ r ∈ l, r.Fits) →
    (∀ r ∈ l, kend < r.addr ∧ kernbase ≤ r.addr ∧ r.addr < highest) →
    size + (pagesOf l).length < 2 ^ 32 →
    Gives view (verifyFrom kend l size : Prog σ ε Nat) v (.ok (size + (pagesOf l).length)) v
  | [], size, _, _, _, _ => gives_pure _
  | n :: rest, size, hs, hfits, hbounds, hsum => by
      obtain ⟨hn, hrest⟩ := List.pairwise_cons.mp hs
      obtain ⟨h1, h2, h3⟩ := hbounds n List.mem_cons_self
      have hb := (hfits n List.mem_cons_self).bytes
      rw [length_pagesOf_cons, ← Nat.add_assoc] at hsum ⊢
      simp only [highest, kernbase, phystop] at h2 h3
      unfold verifyFrom
      refine (gives_require h1).then ((gives_checkedSub h2).then ?_)
      refine (gives_require (by simp only [phystop]; omega)).then ?_
      refine (gives_checkedAdd (by omega)).then ((gives_checkedAdd (by omega)).then ?_)
      cases rest with
      | nil => exact gives_pure _
      | cons s rest =>
        have hlt := hn s List.mem_cons_self
        have hns := addr_lt_stop n
        refine (gives_require (by omega)).then ?_
        refine (endAddr_gives (hfits n List.mem_cons_self)).then ((gives_require hlt).then ?_)
        exact verifyFrom_gives (s :: rest) (size + (n.size + 1)) hrest
          (fun r hr => hfits r (List.mem_cons_of_mem n hr))
          (fun r hr => hbounds r (List.mem_cons_of_mem n hr)) hsum

/-- **`verify` never fires.** -/
theorem verify_gives {ε : Type} {kend : Nat} {a : Allocator} (h : FreeInv kend a) :
    Gives id (verify kend : Prog Allocator ε Unit) a (.ok ()) a := by
  have hlen := h.length_le
  rw [h.length, freePages] at hlen
  unfold verify
  refine gives_get.then ?_
  refine (verifyFrom_gives a.ranges 0 h.sorted (fun r hr => h.fits hr) ?_ (by omega)).then ?_
  · intro r hr
    have h1 := h.kend_ge
    have h2 := h.low r hr
    have h3 := h.high r hr
    have h4 := addr_lt_stop r
    unfold lowest roundUp at h2
    refine ⟨by omega, ?_, by omega⟩
    simp only [kernbase] at h1 ⊢
    omega
  · rw [Nat.zero_add]
    exact gives_require h.length.symm

/-! ## 5. Freeing pages -/

/-- Two aligned ranges without a common page do not overlap. -/
theorem apart_of_pages {r s : Range} (hr : r.addr % 4096 = 0) (hs : s.addr % 4096 = 0)
    (h : ∀ q, ¬ (r.Covers (4096 * q) ∧ s.Covers (4096 * q))) :
    r.stop ≤ s.addr ∨ s.stop ≤ r.addr := by
  by_contra hne
  rw [not_or, Nat.not_le, Nat.not_le] at hne
  have h1 := stop_eq r
  have h2 := stop_eq s
  refine h (max r.addr s.addr / 4096) ?_
  unfold Range.Covers
  omega

/-- The sentinel ends below everything that may be donated. -/
theorem FreeInv.start_stop {kend : Nat} {a : Allocator} (h : FreeInv kend a) :
    a.start.stop < lowest kend := by
  have h1 := stop_eq a.start
  have h2 := h.start_low
  have h3 := h.start_size
  unfold lowest roundUp
  omega

theorem FreeInv.sorted_all {kend : Nat} {a : Allocator} (h : FreeInv kend a) :
    Sorted (a.start :: a.ranges) :=
  List.pairwise_cons.mpr ⟨fun r hr => Nat.lt_of_lt_of_le h.start_stop (h.low r hr), h.sorted⟩

/-- The list after an insertion behind the sentinel. -/
theorem FreeInv.inserted {kend : Nat} {a : Allocator} (h : FreeInv kend a) {new start' : Range}
    {ranges' : List Range} (hal : new.addr % 4096 = 0) (hlow : lowest kend ≤ new.addr)
    (hhigh : new.stop ≤ highest) (hi : Inserted new a.start a.ranges start' ranges') :
    start' = a.start ∧ Sorted ranges' ∧ (∀ r ∈ ranges', r.addr % 4096 = 0) ∧
      (∀ r ∈ ranges', lowest kend ≤ r.addr) ∧ (∀ r ∈ ranges', r.stop ≤ highest) ∧
      ∀ y, Covered ranges' y ↔ Covered a.ranges y ∨ new.Covers y := by
  have hstop := h.start_stop
  have haligned' : ∀ r ∈ ranges', r.addr % 4096 = 0 := by
    intro r hr
    rcases hi.addrs r hr with e | ⟨s, hs, e⟩ <;> rw [e]
    · exact hal
    · exact h.aligned s hs
  have hlow' : ∀ r ∈ ranges', lowest kend ≤ r.addr := by
    intro r hr
    rcases hi.addrs r hr with e | ⟨s, hs, e⟩ <;> rw [e]
    · exact hlow
    · exact h.low s hs
  have hcover : ∀ y, Covered ranges' y ↔ Covered a.ranges y ∨ new.Covers y := by
    intro y
    have hy := hi.cover y
    rw [hi.same (by omega), covered_cons, covered_cons, or_assoc] at hy
    by_cases hc : a.start.Covers y
    · -- nothing else covers an address of the sentinel
      have hlt : y < lowest kend := Nat.lt_trans hc.2 hstop
      constructor
      · rintro ⟨r, hr, hr1, _⟩
        exact absurd (Nat.le_trans (hlow' r hr) hr1) (by omega)
      · rintro (⟨r, hr, hr1, _⟩ | hr)
        · exact absurd (Nat.le_trans (h.low r hr) hr1) (by omega)
        · exact absurd (Nat.le_trans hlow hr.1) (by omega)
    · rwa [or_iff_right hc, or_iff_right hc] at hy
  refine ⟨hi.same (by omega), (List.pairwise_cons.mp hi.sorted).2, haligned', hlow', ?_,
    hcover⟩
  intro r hr
  have hlt := addr_lt_stop r
  rcases (hcover (r.stop - 1)).mp ⟨r, hr, by omega, by omega⟩ with ⟨s, hs, _, h2⟩ | ⟨_, h2⟩
  · have := h.high s hs
    omega
  · omega

theorem roundUp_le_of_lowest_le {kend x : Nat} (h : lowest kend ≤ x) : roundUp kend ≤ x := by
  have hround : roundUp kend ≤ lowest kend := by
    unfold lowest roundUp
    omega
  exact Nat.le_trans hround h

/-- The number of pages of a range, as `free_range` computes it. -/
theorem pageno_stop {kend : Nat} {r : Range} (hal : r.addr % 4096 = 0)
    (hlow : lowest kend ≤ r.addr) :
    (r.stop - roundUp kend) / 4096 - (r.addr - roundUp kend) / 4096 = r.size + 1 := by
  have h1 := stop_eq r
  have h2 := roundUp_le_of_lowest_le hlow
  omega

/-- The allocator after the insertion: the new pages are free and the invariant holds. -/
theorem FreeInv.freed {kend : Nat} {a : Allocator} (h : FreeInv kend a) {r start' : Range}
    {ranges' : List Range} (hal : r.addr % 4096 = 0) (hlow : lowest kend ≤ r.addr)
    (hhigh : r.stop ≤ highest) (hfresh : ∀ q ∈ pagesAt r.addr (r.size + 1), q ∉ freePages a)
    (hi : Inserted r a.start a.ranges start' ranges') :
    FreeInv kend ⟨start', ranges', a.length + (r.size + 1)⟩ ∧
      (pagesOf ranges').Perm (pagesAt r.addr (r.size + 1) ++ freePages a) := by
  obtain ⟨rfl, hsorted, hal', hlow', hhigh', hcover⟩ := h.inserted hal hlow hhigh hi
  have hperm : (pagesOf ranges').Perm (pagesAt r.addr (r.size + 1) ++ freePages a) := by
    rw [List.perm_ext_iff_of_nodup (hsorted.nodup hal')]
    · intro q
      rw [mem_pagesOf hal', List.mem_append, hcover, mem_pagesAt hal, freePages,
        mem_pagesOf h.aligned, or_comm]
    · rw [List.nodup_append]
      exact ⟨List.nodup_range', h.nodup, fun q hq x hx e => hfresh q hq (e ▸ hx)⟩
  refine ⟨⟨h.kend_ge, h.start_low, h.start_size, hsorted, hal', hlow', hhigh', ?_⟩, hperm⟩
  show a.length + (r.size + 1) = (pagesOf ranges').length
  rw [hperm.length_eq, List.length_append, ← h.length, pagesAt, List.length_range', Nat.add_comm]

/-- **Freeing pages that are not free adds them to the free pages**, and keeps the invariant. -/
theorem freeRange_gives (ε : Type) {kend : Nat} {a : Allocator} (h : FreeInv kend a) {r : Range}
    (hal : r.addr % 4096 = 0) (hlow : lowest kend ≤ r.addr) (hhigh : r.stop ≤ highest)
    (hfresh : ∀ q ∈ pagesAt r.addr (r.size + 1), q ∉ freePages a) :
    ∃ a', Gives id (freeRange kend r.addr r.stop : Prog Allocator ε Unit) a (.ok ()) a' ∧
      a'.start = a.start ∧ FreeInv kend a' ∧
      (freePages a').Perm (pagesAt r.addr (r.size + 1) ++ freePages a) := by
  have hfits := fits_of_bounds h.kend_ge hlow hhigh
  have hdisj : ∀ s ∈ a.ranges, s.stop ≤ r.addr ∨ r.stop ≤ s.addr := by
    intro s hs
    refine apart_of_pages (h.aligned s hs) hal fun q hq => ?_
    exact hfresh q ((mem_pagesAt hal q).mpr hq.2) ((mem_pagesOf h.aligned q).mpr ⟨s, hs, hq.1⟩)
  have hstartfits : a.start.Fits := by
    have h1 := stop_eq a.start
    have h2 := h.start_stop
    have h3 := h.start_size
    have h4 := hfits.stop
    have h5 := addr_lt_stop r
    constructor <;> omega
  obtain ⟨start', ranges', hg, hi⟩ := insertFrom_gives ε id a hfits a.ranges hstartfits
    (fun r hr => h.fits hr) h.sorted_all (Nat.le_of_lt (Nat.lt_of_lt_of_le h.start_stop hlow)) hdisj
  refine ⟨⟨start', ranges', a.length + (r.size + 1)⟩, ?_, (h.inserted hal hlow hhigh hi).1,
    h.freed hal hlow hhigh hfresh hi⟩
  -- every check of the code passes on the way to the insertion
  have hlen := h.length_le
  have h1 := stop_eq r
  have hb := hfits.bytes
  have hpages := pageno_stop hal hlow
  have hround := roundUp_le_of_lowest_le hlow
  have hlt := addr_lt_stop r
  have hhigh'' := hhigh
  simp only [highest, kernbase, phystop] at hhigh''
  have halstop : r.stop % 4096 = 0 := by omega
  unfold freeRange
  refine (verify_gives h).then ((gives_require hlt).then ?_)
  refine (gives_require (by simpa [isPageAligned] using hal)).then ?_
  refine (gives_require (by simpa [isPageAligned] using halstop)).then ?_
  refine (gives_pageno hround hal (by omega)).then ?_
  refine (gives_pageno (by omega) halstop (by omega)).then ?_
  rw [hpages]
  refine (gives_checkedSub (by omega)).then ?_
  rw [Nat.add_sub_cancel]
  refine (gives_checkedAdd (by omega)).then (gives_get.then ?_)
  refine (gives_checkedAdd (by omega)).then (hg.then ?_)
  exact gives_modify _

/-- The allocator `RANGE_ALLOC_INIT` makes. -/
theorem start_free {kend addr : Nat} (hk : kernbase ≤ kend) (ha : addr < kend) :
    FreeInv kend (rangeAllocInit addr) :=
  ⟨hk, ha, rfl, List.Pairwise.nil, fun _ h => absurd h List.not_mem_nil,
    fun _ h => absurd h List.not_mem_nil, fun _ h => absurd h List.not_mem_nil, rfl⟩

/-- **Giving the allocator the pages of a region.** -/
theorem init_region {kend : Nat} {a : Allocator} (h : FreeInv kend a) {lo hi : Nat}
    (hlo : lo % 4096 = 0) (hhi : hi % 4096 = 0) (hlt : lo < hi) (hlow : lowest kend ≤ lo)
    (hhigh : hi ≤ highest) (hfresh : ∀ q ∈ pagesAt lo ((hi - lo) / 4096), q ∉ freePages a) :
    ∃ a', init kend lo hi a = (.ok (), a') ∧ FreeInv kend a' ∧
      (freePages a').Perm (pagesAt lo ((hi - lo) / 4096) ++ freePages a) := by
  -- the region as a range
  have hstop : (Range.mk lo ((hi - lo) / 4096 - 1)).stop = hi := by
    rw [stop_eq]
    dsimp only
    omega
  have hsize : (hi - lo) / 4096 - 1 + 1 = (hi - lo) / 4096 := by omega
  obtain ⟨a', hg, _, hfree, hperm⟩ := freeRange_gives AllocErr h
    (r := ⟨lo, (hi - lo) / 4096 - 1⟩) hlo hlow (Nat.le_trans (Nat.le_of_eq hstop) hhigh)
    (by rw [hsize]; exact hfresh)
  rw [hstop] at hg
  dsimp only at hperm
  rw [hsize] at hperm
  exact ⟨a', gives_id_iff.mp hg, hfree, hperm⟩

/-! ## 6. Allocating -/

/-- The number of pages for `size` bytes. -/
def pagesFor (size : Nat) : Nat := (size + 4095) / 4096

theorem sizeToPages_gives {σ υ ε : Type} {view : σ → υ} {v : υ} {size : Nat}
    (h : size + 4096 < 2 ^ 32) :
    Gives view (sizeToPages size : Prog σ ε Nat) v (.ok (pagesFor size)) v := by
  have e : pagesFor size = (4096 + size - 1) / 4096 := by
    unfold pagesFor
    omega
  unfold sizeToPages
  rw [e]
  refine (gives_checkedAdd (by simp only [pgsize]; omega)).then ?_
  exact (gives_checkedSub (by simp only [pgsize]; omega)).then (gives_pure _)

/-- `Carved n l p l'`: the `n` pages from `p` on are taken from the first node of `l` that has as
    many, from its end; `l'` are the nodes that remain. -/
inductive Carved (n : Nat) : List Range → Nat → List Range → Prop where
  | tail {r : Range} {l : List Range} (h : n ≤ r.size) :
      Carved n (r :: l) (r.addr + 4096 * (r.size + 1 - n)) ({ r with size := r.size - n } :: l)
  | whole {r : Range} {l : List Range} (h : r.size + 1 = n) : Carved n (r :: l) r.addr l
  | skip {r : Range} {l l' : List Range} {p : Nat} (h : r.size + 1 < n) (hl : Carved n l p l') :
      Carved n (r :: l) p (r :: l')

theorem allocateFromRange_gives {σ υ ε : Type} {view : σ → υ} {v : υ} {r : Range} {n : Nat}
    (hr : r.Fits) (hn : n ≤ r.size) :
    Gives view (r.allocateFromRange n : Prog σ ε (Nat × Range)) v
      (.ok (r.addr + 4096 * (r.size + 1 - n), { r with size := r.size - n })) v := by
  have hb := hr.bytes
  have hs := hr.stop
  rw [stop_eq] at hs
  unfold Range.allocateFromRange
  refine (gives_require hn).then ((gives_checkedAdd (by omega)).then ?_)
  refine (gives_checkedSub (by omega)).then ?_
  rw [toSigned_small (by omega)]
  refine (offset_gives (by omega) (by omega)).then ?_
  exact (gives_checkedSub hn).then (gives_pure _)

/-- The loop of `allocate`: the first node that is large enough, or none is. -/
theorem allocateFrom_gives {σ υ : Type} (ε : Type) (view : σ → υ) (v : υ) (n : Nat) :
    ∀ l : List Range, (∀ r ∈ l, r.Fits) →
    (∃ p l', Carved n l p l' ∧
      Gives view (allocateFrom n l : Prog σ ε (Option (Nat × List Range))) v
        (.ok (some (p, l'))) v) ∨
    ((∀ r ∈ l, r.size + 1 < n) ∧
      Gives view (allocateFrom n l : Prog σ ε (Option (Nat × List Range))) v (.ok none) v)
  | [], _ => Or.inr ⟨nofun, gives_pure _⟩
  | r :: l, hfits => by
      have hr := hfits r List.mem_cons_self
      have hb := hr.bytes
      unfold allocateFrom
      by_cases htail : n ≤ r.size
      · rw [if_pos htail]
        exact Or.inl ⟨_, _, .tail htail, (allocateFromRange_gives hr htail).then (gives_pure _)⟩
      rw [if_neg htail]
      have hpages : Gives view (checkedAdd r.size 1 : Prog σ ε Nat) v (.ok (r.size + 1)) v :=
        gives_checkedAdd (by omega)
      by_cases hwhole : r.size + 1 = n
      · refine Or.inl ⟨_, _, .whole hwhole, hpages.then ?_⟩
        rw [if_pos hwhole]
        exact gives_pure _
      have hskip : r.size + 1 < n := by omega
      rcases allocateFrom_gives ε view v n l (fun s hs => hfits s (List.mem_cons_of_mem r hs)) with
        ⟨p, l', hc, hg⟩ | ⟨hnone, hg⟩
      · refine Or.inl ⟨p, r :: l', .skip hskip hc, hpages.then ?_⟩
        rw [if_neg hwhole]
        exact hg.then (gives_pure _)
      · refine Or.inr ⟨List.forall_mem_cons.mpr ⟨hskip, hnone⟩, hpages.then ?_⟩
        rw [if_neg hwhole]
        exact hg.then (gives_pure _)

theorem pagesOf_cons (r : Range) (l : List Range) :
    pagesOf (r :: l) = pagesAt r.addr (r.size + 1) ++ pagesOf l := rfl

/-- **The pages taken and the pages that remain are the pages there were.** -/
theorem Carved.pages {n p : Nat} {l l' : List Range} (h : Carved n l p l')
    (hal : ∀ r ∈ l, r.addr % 4096 = 0) :
    p % 4096 = 0 ∧ (pagesOf l).Perm (pagesAt p n ++ pagesOf l') := by
  induction h with
  | @tail r l hn =>
    have hr := hal r List.mem_cons_self
    have hfirst : (r.addr + 4096 * (r.size + 1 - n)) / 4096
        = r.addr / 4096 + 1 * (r.size - n + 1) := by omega
    have hlen : r.size + 1 = r.size - n + 1 + n := by omega
    refine ⟨by omega, ?_⟩
    rw [pagesOf_cons, pagesOf_cons, pagesAt, pagesAt, pagesAt, hfirst, hlen, ← List.range'_append,
      ← List.append_assoc]
    exact List.perm_append_comm.append_right _
  | @whole r l hn =>
    refine ⟨hal r List.mem_cons_self, ?_⟩
    rw [pagesOf_cons, hn]
  | @skip r l l' p hn _ ih =>
    obtain ⟨hp, hperm⟩ := ih fun s hs => hal s (List.mem_cons_of_mem r hs)
    refine ⟨hp, ?_⟩
    rw [pagesOf_cons, pagesOf_cons]
    refine (hperm.append_left _).trans ?_
    rw [← List.append_assoc, ← List.append_assoc]
    exact List.perm_append_comm.append_right _

/-- A node that remains is a node there was, or the front of one. -/
theorem Carved.within {n p : Nat} {l l' : List Range} (h : Carved n l p l') :
    ∀ r ∈ l', ∃ s ∈ l, r.addr = s.addr ∧ r.stop ≤ s.stop := by
  induction h with
  | @tail r l hn =>
    intro s hs
    rcases List.mem_cons.mp hs with rfl | hs
    · refine ⟨r, List.mem_cons_self, rfl, ?_⟩
      rw [stop_eq, stop_eq]
      dsimp only
      omega
    · exact ⟨s, List.mem_cons_of_mem r hs, rfl, Nat.le_refl _⟩
  | @whole r l hn => exact fun s hs => ⟨s, List.mem_cons_of_mem r hs, rfl, Nat.le_refl _⟩
  | @skip r l l' p hn _ ih =>
    intro s hs
    rcases List.mem_cons.mp hs with rfl | hs
    · exact ⟨s, List.mem_cons_self, rfl, Nat.le_refl _⟩
    · obtain ⟨t, ht, e⟩ := ih s hs
      exact ⟨t, List.mem_cons_of_mem r ht, e⟩

theorem Carved.sorted {n p : Nat} {l l' : List Range} (h : Carved n l p l') (hs : Sorted l) :
    Sorted l' := by
  induction h with
  | @tail r l hn =>
    obtain ⟨hr, hl⟩ := List.pairwise_cons.mp hs
    refine List.pairwise_cons.mpr ⟨fun s hs => Nat.lt_of_le_of_lt ?_ (hr s hs), hl⟩
    rw [stop_eq, stop_eq]
    dsimp only
    omega
  | whole => exact (List.pairwise_cons.mp hs).2
  | @skip r l l' p hn hc ih =>
    obtain ⟨hr, hl⟩ := List.pairwise_cons.mp hs
    refine List.pairwise_cons.mpr ⟨fun s hs => ?_, ih hl⟩
    obtain ⟨t, ht, e, _⟩ := hc.within s hs
    rw [e]
    exact hr t ht

/-- The invariant after an allocation. -/
theorem FreeInv.carved {kend n p : Nat} {a : Allocator} (h : FreeInv kend a) {l' : List Range}
    (hc : Carved n a.ranges p l') :
    n ≤ a.length ∧ FreeInv kend { a with ranges := l', length := a.length - n } := by
  have hlen := (hc.pages h.aligned).2.length_eq
  rw [List.length_append, pagesAt, List.length_range'] at hlen
  have hlength : a.length = n + (pagesOf l').length := h.length.trans hlen
  refine ⟨by omega, h.kend_ge, h.start_low, h.start_size, hc.sorted h.sorted, ?_, ?_, ?_, ?_⟩
  · intro r hr
    obtain ⟨s, hs, e, _⟩ := hc.within r hr
    rw [e]
    exact h.aligned s hs
  · intro r hr
    obtain ⟨s, hs, e, _⟩ := hc.within r hr
    rw [e]
    exact h.low s hs
  · intro r hr
    obtain ⟨s, hs, _, e⟩ := hc.within r hr
    exact Nat.le_trans e (h.high s hs)
  · show a.length - n = (pagesOf l').length
    omega

/-- **Allocating carves the pages out of the list**, or fails with nothing changed when no node is
    large enough. -/
theorem allocate_carves {kend size : Nat} {a : Allocator} (h : FreeInv kend a)
    (hsize : size + 4096 < 2 ^ 32) :
    (∃ p l', Carved (pagesFor size) a.ranges p l' ∧ Gives id (allocate kend size) a (.ok p)
      { a with ranges := l', length := a.length - pagesFor size }) ∨
    ((∀ r ∈ a.ranges, r.size + 1 < pagesFor size) ∧
      Gives id (allocate kend size) a (.err ()) a) := by
  unfold allocate
  rcases allocateFrom_gives Unit id a (pagesFor size) a.ranges (fun r hr => h.fits hr) with
    ⟨p, l', hc, hg⟩ | ⟨hnone, hg⟩
  · refine Or.inl ⟨p, l', hc, ?_⟩
    refine (verify_gives h).then ((sizeToPages_gives hsize).then (gives_get.then (hg.then ?_)))
    refine (gives_checkedSub (h.carved hc).1).then ((gives_modify _).then ?_)
    exact gives_pure p
  · refine Or.inr ⟨hnone, ?_⟩
    refine (verify_gives h).then ((sizeToPages_gives hsize).then (gives_get.then (hg.then ?_)))
    exact gives_fail ()

/-- The same, said about the pages. -/
theorem allocate_gives {kend size : Nat} {a : Allocator} (h : FreeInv kend a)
    (hsize : size + 4096 < 2 ^ 32) :
    (∃ p a', Gives id (allocate kend size) a (.ok p) a' ∧ FreeInv kend a' ∧ p % 4096 = 0 ∧
      (freePages a).Perm (pagesAt p (pagesFor size) ++ freePages a')) ∨
    ((∀ r ∈ a.ranges, r.size + 1 < pagesFor size) ∧
      Gives id (allocate kend size) a (.err ()) a) := by
  rcases allocate_carves h hsize with ⟨p, l', hc, hg⟩ | hnone
  · obtain ⟨hp, hperm⟩ := hc.pages h.aligned
    exact Or.inl ⟨p, _, hg, (h.carved hc).2, hp, hperm⟩
  · exact Or.inr hnone

/-- Two nodes of the list, if they are two, have memory between them. -/
theorem Sorted.apart {l : List Range} (hs : Sorted l) {r s : Range} (hr : r ∈ l) (hmem : s ∈ l) :
    r = s ∨ r.stop < s.addr ∨ s.stop < r.addr := by
  have hsymm : Std.Symm fun a b : Range => a.stop < b.addr ∨ b.stop < a.addr :=
    ⟨fun a b h => h.symm⟩
  have hpair : l.Pairwise fun a b => a.stop < b.addr ∨ b.stop < a.addr := hs.imp Or.inl
  by_cases heq : r = s
  · exact Or.inl heq
  · exact Or.inr (hpair.forall hr hmem heq)

/-- **Free pages in a row are pages of one node.** -/
theorem FreeInv.range_of_pages {kend : Nat} {a : Allocator} (h : FreeInv kend a) {q n : Nat}
    (hpos : 0 < n) (hfree : ∀ i < n, q + i ∈ freePages a) : ∃ r ∈ a.ranges, n ≤ r.size + 1 := by
  have hcovered : ∀ i < n, Covered a.ranges (4096 * (q + i)) := fun i hi =>
    (mem_pagesOf h.aligned _).mp (hfree i hi)
  obtain ⟨r, hr, hfirst⟩ := hcovered 0 hpos
  -- the node of the first page has the others, for no node begins where another ends
  have hrow : ∀ i < n, r.Covers (4096 * (q + i)) := by
    intro i
    induction i with
    | zero => exact fun _ => hfirst
    | succ i ih =>
      intro hi
      have hbefore := ih (Nat.lt_of_succ_lt hi)
      obtain ⟨s, hs, hcover⟩ := hcovered (i + 1) hi
      have halign := h.aligned r hr
      have hstop := stop_eq r
      unfold Range.Covers at hbefore hcover ⊢
      rcases h.sorted.apart hr hs with rfl | hlt | hlt
      · exact hcover
      · omega
      · omega
  have hlast := (hrow (n - 1) (by omega)).2
  have hbegin := hfirst.1
  have hstop := stop_eq r
  exact ⟨r, hr, by omega⟩

end Sprocket.Kalloc
