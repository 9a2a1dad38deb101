/-
  File:      Sprocket/Vm/Heap.lean
  Subject:   THE PAGE TABLES COME FROM THE HEAP: `setupkvm` over the kernel's allocator.

  `Vm/Paging.lean` has the code of `vm.rs` with the addresses of the boxes given from outside. Here
  the same functions allocate: the directory and every page table is a `box` of 4096 bytes, so a
  call of the allocator, and when there is no page left the box aborts.

  * `Ledger` -- the free pages and the pages of the tables are, together, the pages there were;
  * `walkpgdir_follows` ... `mapAll_follows` -- the code follows the code with given boxes, for
    every choice of boxes that agrees with the tables the run has made (Lib/Forecast.lean);
  * `mapAll_touches` -- which entries of the directory the four regions need: 64 of them;
  * `mapAll_heap` -- so 64 pages are enough, and fewer are not.
-/
import Sprocket.Kalloc.FreeList
import Sprocket.Lib.Forecast
import Sprocket.Vm.KernelMap

namespace Sprocket.Vm.Heap

open Prog Kalloc

/-! ## 1. The code -/

/-- The layout of a directory or of a page table: 1024 entries of four bytes. -/
def tableLayout : Layout := ⟨4096, 4⟩

section Code

variable (kend : Nat)

/-- `box [..; 1024]`, which aborts when the allocator fails. -/
def boxTable : Prog (Allocator × Paging) Unit Nat := unwrap (onFst (alloc kend tableLayout))

def walkpgdir (va : Nat) (allocate : Bool) : Prog (Allocator × Paging) Unit (Nat × Nat) := do
  let m ← get
  let i := pageDirIndex va
  if contains (m.2.pgdir i) present then do
    let pgtab ← toVirt (address (m.2.pgdir i))
    pure (pgtab, pageTableIndex va)
  else if allocate then do
    let pgtab ← boxTable kend
    onSnd (newTable pgtab)
    let phys ← toPhys pgtab
    onSnd (modify fun s => { s with pgdir := Function.update s.pgdir i (dirEntry phys) })
    pure (pgtab, pageTableIndex va)
  else fail ()

/-- The body of the loop of `map_pages`. -/
def mapPage (permissions a pa : Nat) : Prog (Allocator × Paging) Unit Unit := do
  let pte ← walkpgdir kend a true
  let e ← onSnd (readEntry pte)
  -- "remap failed"
  require (¬ contains e present)
  onSnd (writeEntry pte (newEntry permissions pa))

def mapLoop (permissions last a pa : Nat) : Prog (Allocator × Paging) Unit Unit := do
  mapPage kend permissions a pa
  if a = last then pure ()
  else if h : a + pgsize < 2 ^ 32 then do
    let pa ← offset pa pgsize
    mapLoop permissions last (a + pgsize) pa
  else crash
termination_by 2 ^ 32 - a
decreasing_by
  simp only [pgsize] at h ⊢
  omega

def mapPages (va size pa permissions : Nat) : Prog (Allocator × Paging) Unit Unit := do
  let a := pageRounddown va
  let n ← checkedSub size 1
  let e ← offset va (toSigned n)
  mapLoop kend permissions (pageRounddown e) a pa

/-- The loop of `setupkvm`. -/
def mapAll : List Kmap → Prog (Allocator × Paging) Unit Unit
  | [] => pure ()
  | k :: ks => do
    mapPages kend k.virt (addrSub k.pEnd k.pStart) k.pStart k.perm
    mapAll ks

/-- The loop, and the box of the directory as the result. An error drops the box. -/
def mapInto (pgdir : Nat) (ks : List Kmap) : Prog (Allocator × Paging) Unit Nat := do
  match ← attempt (mapAll kend ks) with
  | .ok () => pure pgdir
  | .error e => do
    unwrap (onFst (dealloc kend pgdir tableLayout))
    fail e

def setupkvm (dataBegin : Nat) : Prog (Allocator × Paging) Unit Nat := do
  let pgdir ← boxTable kend
  onSnd (modify fun s => { s with pgdir := fun _ => 0 })
  let top ← toVirt phystop
  require (top ≤ devspace)
  let ks ← onSnd (kmap dataBegin)
  mapInto kend pgdir ks

end Code

/-! ## 2. The books -/

/-- The entry is there. -/
abbrev Has (s : Paging) (i : Nat) : Prop := contains (s.pgdir i) present = true

/-- The pages of the page tables, in the order of the directory. -/
def tablePages (s : Paging) : List Nat :=
  ((List.range 1024).filter fun i => contains (s.pgdir i) present).map fun i => s.tableAt i / 4096

/-- **The free pages and the pages of the tables are the pages there were**, and an entry of the
    directory is what `walkpgdir` writes: present, user and writable, and nothing else. -/
structure Ledger (kend : Nat) (all : List Nat) (a : Allocator) (s : Paging) : Prop where
  free : FreeInv kend a
  pages : (freePages a ++ tablePages s).Perm all
  flags : ∀ i, Has s i → s.pgdir i % 4096 = 7

/-- The directory keeps its entries. -/
def Extends (s t : Paging) : Prop := ∀ i, Has s i → t.pgdir i = s.pgdir i

theorem Extends.has {s t : Paging} (h : Extends s t) {i : Nat} (hi : Has s i) : Has t i := by
  unfold Has
  rw [h i hi]
  exact hi

/-- The boxes are those of the page tables made on the way from `s` to `t`. -/
structure Tells (boxAt : Nat → Nat) (s t : Paging) : Prop where
  fresh : FreshBoxes boxAt
  told : ∀ i < 1024, ¬ Has s i → Has t i → boxAt i = t.tableAt i

/-- `t` has an entry more. -/
def Lacks (s t : Paging) : Prop := Extends s t ∧ ∃ i < 1024, ¬ Has s i ∧ Has t i

theorem Extends.trans {s t u : Paging} (h : Extends s t) (h' : Extends t u) : Extends s u :=
  fun i hi => (h' i (h.has hi)).trans (h i hi)

/-- The heap against boxes that are given. -/
def forecast (kend : Nat) (all : List Nat) : Forecast Allocator Paging (Nat → Nat) where
  Inv := Ledger kend all
  Ext := Extends
  Says := Tells
  Spent a := freePages a = []
  More := Lacks
  refl _ _ _ := rfl
  trans := Extends.trans
  says_first := by
    intro f s t u _ htu h
    refine ⟨h.fresh, fun i hi habs hp => ?_⟩
    rw [h.told i hi habs (htu.has hp), Paging.tableAt, htu i hp, Paging.tableAt]
  says_rest := by
    intro f s t u hst _ h
    exact ⟨h.fresh, fun i hi habs hp => h.told i hi (fun hs => habs (hst.has hs)) hp⟩
  more_mono := by
    intro s t u h htu
    obtain ⟨hst, i, hi, habs, hp⟩ := h
    exact ⟨hst.trans htu, i, hi, habs, htu.has hp⟩

section Books

variable {kend : Nat} {all : List Nat} {a : Allocator} {s : Paging}

/-- The books read only the directory. -/
theorem Ledger.congr {t : Paging} (h : Ledger kend all a s) (hdir : t.pgdir = s.pgdir) :
    Ledger kend all a t := by
  have hpages : tablePages t = tablePages s := by
    unfold tablePages Paging.tableAt
    rw [hdir]
  constructor
  · exact h.free
  · rw [hpages]
    exact h.pages
  · intro i hi
    unfold Has at hi
    rw [hdir] at hi ⊢
    exact h.flags i hi

/-- A new page table in the box at `p`. -/
theorem withBox_dir {p : Nat} (hal : p % 4096 = 0) (hk : kernbase ≤ p) (i : Nat) :
    Has (s.withTable (fun _ => p) i) i ∧ (s.withTable (fun _ => p) i).pgdir i % 4096 = 7 ∧
      (s.withTable (fun _ => p) i).tableAt i = p := by
  have hphys : (p - kernbase) % 4096 = 0 := by
    simp only [kernbase] at hk ⊢
    omega
  have hentry : (s.withTable (fun _ => p) i).pgdir i = dirEntry (p - kernbase) :=
    Function.update_self ..
  obtain ⟨h1, _, h3⟩ := dirEntry_flags hphys
  unfold Has
  rw [Paging.tableAt, hentry, h3]
  refine ⟨h1, ?_, Nat.sub_add_cancel hk⟩
  rw [dirEntry_eq hphys]
  omega

theorem withBox_extends {p i : Nat} (habs : ¬ Has s i) :
    Extends s (s.withTable (fun _ => p) i) := by
  intro j hj
  have hne : j ≠ i := fun e => habs (e ▸ hj)
  exact (withTable_other hne).1

/-- The new table is entered, and the others stay. -/
theorem tablePages_withBox {p i : Nat} (hal : p % 4096 = 0) (hk : kernbase ≤ p) (hi : i < 1024)
    (habs : ¬ Has s i) :
    (tablePages (s.withTable (fun _ => p) i)).Perm (p / 4096 :: tablePages s) := by
  obtain ⟨hp, _, hat⟩ := withBox_dir (s := s) hal hk i
  have hentries : ((List.range 1024).filter fun j =>
        contains ((s.withTable (fun _ => p) i).pgdir j) present).Perm
      (i :: (List.range 1024).filter fun j => contains (s.pgdir j) present) := by
    refine (List.perm_ext_iff_of_nodup (List.nodup_range.filter _) ?_).mpr fun j => ?_
    · exact List.nodup_cons.mpr ⟨fun h => habs (List.mem_filter.mp h).2, List.nodup_range.filter _⟩
    · by_cases hj : j = i
      · subst hj
        simp [hi, hp]
      · have hother : (s.withTable (fun _ => p) i).pgdir j = s.pgdir j := (withTable_other hj).1
        simp [hj, hother]
  refine (hentries.map _).trans ?_
  rw [List.map_cons, hat]
  refine List.Perm.of_eq (congrArg _ (List.map_congr_left fun j hj => ?_))
  have hne : j ≠ i := fun e => habs (e ▸ (List.mem_filter.mp hj).2)
  rw [(withTable_other hne).2]

/-- A page has gone from the heap into the directory. -/
theorem Ledger.withBox {a' : Allocator} {p i : Nat} (h : Ledger kend all a s)
    (hfree : FreeInv kend a') (hperm : (freePages a).Perm (p / 4096 :: freePages a'))
    (hal : p % 4096 = 0) (hk : kernbase ≤ p) (hi : i < 1024) (habs : ¬ Has s i) :
    Ledger kend all a' (s.withTable (fun _ => p) i) := by
  obtain ⟨_, hflags, _⟩ := withBox_dir (s := s) hal hk i
  refine ⟨hfree, ?_, fun j hj => ?_⟩
  · have hout : (freePages a' ++ p / 4096 :: tablePages s).Perm (freePages a ++ tablePages s) :=
      List.perm_middle.trans (hperm.symm.append_right _)
    exact (((tablePages_withBox hal hk hi habs).append_left _).trans hout).trans h.pages
  · by_cases hji : j = i
    · rw [hji]
      exact hflags
    · unfold Has at hj
      rw [(withTable_other hji).1] at hj ⊢
      exact h.flags j hj

end Books

/-! ## 3. The code follows the code with given boxes -/

section Follow

variable {kend : Nat} {all : List Nat} {a : Allocator} {s : Paging}

/-- **A box is a free page, or there is none.** -/
theorem boxTable_cases (h : FreeInv kend a) (s : Paging) :
    (∃ p a', boxTable kend (a, s) = (.ok p, (a', s)) ∧ FreeInv kend a' ∧ p % 4096 = 0 ∧
      kernbase ≤ p ∧ (freePages a).Perm (p / 4096 :: freePages a')) ∨
    (boxTable kend (a, s) = (.panic, (a, s)) ∧ freePages a = []) := by
  have halloc : alloc kend tableLayout a =
      mapErr (fun _ => .exhausted tableLayout) (allocate kend 4096) a := rfl
  have hsize : 4096 + 4096 < 2 ^ 32 := by decide
  rcases allocate_gives h hsize with ⟨p, a', hg, hfree, hal, hperm⟩ | ⟨hfull, hg⟩
  · obtain ⟨h1, h2⟩ := hg a rfl
    have hrun : allocate kend 4096 a = (.ok p, a') := Prod.ext h1 h2
    have hpages : (freePages a).Perm (p / 4096 :: freePages a') := hperm
    have hlow := (h.page_bounds (hpages.mem_iff.mpr List.mem_cons_self)).1
    refine Or.inl ⟨p, a', ?_, hfree, hal, ?_, hpages⟩
    · simp only [boxTable, unwrap, onFst, halloc, mapErr, hrun]
    · have hk := h.kend_ge
      simp only [lowest, roundUp] at hlow
      omega
  · obtain ⟨h1, h2⟩ := hg a rfl
    have hrun : allocate kend 4096 a = (.err (), a) := Prod.ext h1 h2
    have hnil : a.ranges = [] := List.eq_nil_iff_forall_not_mem.mpr fun r hr => by
      have hlt : r.size + 1 < 1 := hfull r hr
      omega
    refine Or.inr ⟨?_, ?_⟩
    · simp only [boxTable, unwrap, onFst, halloc, mapErr, hrun]
    · rw [freePages, hnil]
      rfl

/-! The three ways through `walkpgdir`, with given boxes and with the heap. -/

theorem pageDirIndex_lt (va : Nat) : pageDirIndex va < 1024 := by
  rw [pageDirIndex_eq]
  exact Nat.mod_lt _ (by decide)

/-- The entry is present: its table is taken. -/
def oldTable {σ : Type} (e va : Nat) : Prog σ Unit (Nat × Nat) := do
  let pgtab ← toVirt (address e)
  pure (pgtab, pageTableIndex va)

theorem oldTable_state {σ : Type} (e va : Nat) (s : σ) : (oldTable e va s).2 = s := by
  have hvirt : Keeps id (toVirt (address e) : Prog σ Unit Nat) (· = s) := by
    intro v h
    exact ends_checkedAdd h h
  have hkeep : Keeps id (oldTable e va : Prog σ Unit (Nat × Nat)) (· = s) := by
    unfold oldTable
    exact keeps_bind hvirt fun _ => keeps_pure _
  have hsame : id (oldTable e va s).2 = s := hkeep s rfl s rfl
  rwa [id_eq] at hsame

theorem given_present {va : Nat} {allocate : Bool} (boxAt : Nat → Nat)
    (hp : Has s (pageDirIndex va)) :
    Vm.walkpgdir boxAt va allocate s = oldTable (s.pgdir (pageDirIndex va)) va s := by
  show (if contains (s.pgdir (pageDirIndex va)) present then _ else _ : Prog Paging Unit _) s = _
  rw [if_pos hp]
  rfl

theorem heap_present {va : Nat} {allocate : Bool} (hp : Has s (pageDirIndex va)) :
    walkpgdir kend va allocate (a, s) = oldTable (s.pgdir (pageDirIndex va)) va (a, s) := by
  show (if contains (s.pgdir (pageDirIndex va)) present then _ else _ :
    Prog (Allocator × Paging) Unit _) (a, s) = _
  rw [if_pos hp]
  rfl

theorem given_refused {va : Nat} (boxAt : Nat → Nat) (habs : ¬ Has s (pageDirIndex va)) :
    Vm.walkpgdir boxAt va false s = (.err (), s) := by
  show (if contains (s.pgdir (pageDirIndex va)) present then _ else _ : Prog Paging Unit _) s = _
  rw [if_neg habs]
  rfl

theorem heap_refused {va : Nat} (habs : ¬ Has s (pageDirIndex va)) :
    walkpgdir kend va false (a, s) = (.err (), (a, s)) := by
  show (if contains (s.pgdir (pageDirIndex va)) present then _ else _ :
    Prog (Allocator × Paging) Unit _) (a, s) = _
  rw [if_neg habs]
  rfl

theorem given_new {va : Nat} {boxAt : Nat → Nat} (habs : ¬ Has s (pageDirIndex va))
    (hk : kernbase ≤ boxAt (pageDirIndex va)) :
    Vm.walkpgdir boxAt va true s = (.ok (boxAt (pageDirIndex va), pageTableIndex va),
      s.withTable (fun _ => boxAt (pageDirIndex va)) (pageDirIndex va)) := by
  refine gives_id_iff.mp (gives_get.then ?_)
  dsimp only
  rw [if_neg habs, if_pos rfl]
  refine Gives.then (gives_modify _) (Gives.then (gives_checkedSub hk) ?_)
  exact (gives_modify _).then (gives_pure _)

theorem heap_new {va p : Nat} {a' : Allocator} (habs : ¬ Has s (pageDirIndex va))
    (hbox : boxTable kend (a, s) = (.ok p, (a', s))) (hk : kernbase ≤ p) :
    walkpgdir kend va true (a, s) = (.ok (p, pageTableIndex va),
      (a', s.withTable (fun _ => p) (pageDirIndex va))) := by
  refine gives_id_iff.mp (gives_get.then ?_)
  dsimp only
  rw [if_neg habs, if_pos rfl]
  refine (gives_id_iff.mpr hbox).then ?_
  refine Gives.then (gives_id_iff.mpr rfl) (Gives.then (gives_checkedSub hk) ?_)
  exact Gives.then (gives_id_iff.mpr rfl) (gives_pure _)

theorem heap_spent {va : Nat} (habs : ¬ Has s (pageDirIndex va))
    (hbox : boxTable kend (a, s) = (.panic, (a, s))) :
    walkpgdir kend va true (a, s) = (.panic, (a, s)) := by
  refine gives_id_iff.mp (gives_get.then ?_)
  dsimp only
  rw [if_neg habs, if_pos rfl]
  exact (gives_id_iff.mpr hbox).then_panic

theorem oldTable_follows (e va : Nat) :
    Follows (forecast kend all) (oldTable e va) fun _ => oldTable e va :=
  (follows_checkedAdd _ _).bind fun _ => follows_pure _

/-- With given boxes at most the entry of the address changes, and only if it was not there. -/
theorem given_changes (boxAt : Nat → Nat) (va : Nat) (allocate : Bool) (s : Paging) (i : Nat) :
    (Vm.walkpgdir boxAt va allocate s).2.pgdir i = s.pgdir i ∨ i = pageDirIndex va ∧ ¬ Has s i := by
  by_cases hp : Has s (pageDirIndex va)
  · rw [given_present boxAt hp, oldTable_state]
    exact Or.inl rfl
  cases allocate with
  | false =>
    rw [given_refused boxAt hp]
    exact Or.inl rfl
  | true =>
    by_cases hi : i = pageDirIndex va
    · exact Or.inr ⟨hi, hi ▸ hp⟩
    refine Or.inl ?_
    by_cases hk : kernbase ≤ boxAt (pageDirIndex va)
    · rw [given_new hp hk]
      exact (withTable_other hi).1
    · -- the box is no kernel address, and the code panics before it enters the table
      have hend : Ends id (Vm.walkpgdir boxAt va true) s fun _ t => t.pgdir = s.pgdir := by
        have hphys : ∀ t : Paging, Gives id (toPhys (boxAt (pageDirIndex va)) :
            Prog Paging Unit Nat) t .panic t := by
          unfold toPhys checkedSub
          rw [if_neg hk]
          exact fun _ => gives_crash
        refine gives_get.then ?_
        dsimp only
        rw [if_neg hp, if_pos rfl]
        exact Gives.then (gives_modify _) ((hphys _).then_panic.ends rfl)
      exact congrFun (hend s rfl) i

theorem given_extends (boxAt : Nat → Nat) (va : Nat) (allocate : Bool) (s : Paging) :
    Extends s (Vm.walkpgdir boxAt va allocate s).2 := by
  intro i hi
  rcases given_changes boxAt va allocate s i with e | ⟨_, habs⟩
  · exact e
  · exact absurd hi habs

/-- **`walkpgdir` follows `walkpgdir` with given boxes.** -/
theorem walkpgdir_follows (va : Nat) (allocate : Bool) :
    Follows (forecast kend all) (walkpgdir kend va allocate) fun boxAt =>
      Vm.walkpgdir boxAt va allocate := by
  refine ⟨fun boxAt s => given_extends boxAt va allocate s, fun a s h => ?_⟩
  by_cases hp : Has s (pageDirIndex va)
  · rw [heap_present hp]
    exact ((oldTable_follows _ va).runs a s h).congr fun boxAt => given_present boxAt hp
  cases allocate with
  | false =>
    rw [heap_refused hp]
    exact ⟨h, fun _ _ => rfl, Or.inl fun boxAt _ => given_refused boxAt hp⟩
  | true =>
    have hi := pageDirIndex_lt va
    rcases boxTable_cases h.free s with ⟨p, a', hbox, hfree, hal, hk, hperm⟩ | ⟨hbox, hspent⟩
    · obtain ⟨hnew, _, hat⟩ := withBox_dir (s := s) hal hk (pageDirIndex va)
      rw [heap_new hp hbox hk]
      refine ⟨h.withBox hfree hperm hal hk hi hp, withBox_extends hp, Or.inl fun boxAt htell => ?_⟩
      have hsame : boxAt (pageDirIndex va) = p := (htell.told _ hi hp hnew).trans hat
      have hrun := given_new hp (hsame ▸ hk)
      rw [hsame] at hrun
      exact hrun
    · rw [heap_spent hp hbox]
      refine ⟨h, fun _ _ => rfl, Or.inr ⟨rfl, hspent, fun boxAt htell => ?_⟩⟩
      have hk := (htell.fresh.kernel _ hi).1
      show Lacks s (Vm.walkpgdir boxAt va true s).2
      rw [given_new hp hk]
      exact ⟨withBox_extends hp, _, hi, hp,
        (withBox_dir (htell.fresh.aligned _ hi) hk (pageDirIndex va)).1⟩

theorem onTables_follows {α : Type} {n : Prog Paging Unit α}
    (h : ∀ s, (n s).2.pgdir = s.pgdir) : Follows (forecast kend all) (onSnd n) fun _ => n :=
  follows_onSnd (fun s i _ => congrFun (h s) i) fun _ s hs => hs.congr (h s)

theorem readEntry_pgdir (place : Nat × Nat) (s : Paging) :
    (readEntry place s).2.pgdir = s.pgdir := by
  have hrun : readEntry place s = (ofOption (s.tables place.1) >>= fun tab =>
    pure (tab place.2) : Prog Paging Unit Nat) s := rfl
  rw [hrun]
  cases s.tables place.1 <;> rfl

theorem writeEntry_pgdir (place : Nat × Nat) (e : Nat) (s : Paging) :
    (writeEntry place e s).2.pgdir = s.pgdir := by
  have hrun : writeEntry place e s = (ofOption (s.tables place.1) >>= fun tab =>
    modify fun s => { s with
      tables := Function.update s.tables place.1 (some (Function.update tab place.2 e)) } :
    Prog Paging Unit Unit) s := rfl
  rw [hrun]
  cases s.tables place.1 <;> rfl

theorem mapPage_follows (permissions a pa : Nat) :
    Follows (forecast kend all) (mapPage kend permissions a pa) fun boxAt =>
      Vm.mapPage boxAt permissions a pa :=
  (walkpgdir_follows a true).bind fun pte =>
    (onTables_follows (readEntry_pgdir pte)).bind fun _ =>
      (follows_require _).bind fun _ => onTables_follows (writeEntry_pgdir pte _)

theorem offset_follows (a : Nat) (off : Int) :
    Follows (forecast kend all) (offset a off : Prog (Allocator × Paging) Unit Nat) fun _ =>
      offset a off :=
  (follows_checkedAdd _ _).ite (follows_pure _)

/-- The loop, by the recursion of the code. -/
theorem mapLoop_follows (permissions last a pa : Nat) :
    Follows (forecast kend all) (mapLoop kend permissions last a pa) fun boxAt =>
      Vm.mapLoop boxAt permissions last a pa := by
  have hgiven : (fun boxAt => Vm.mapLoop boxAt permissions last a pa) = (fun boxAt => do
      Vm.mapPage boxAt permissions a pa
      if a = last then pure ()
      else if h : a + pgsize < 2 ^ 32 then do
        let pa ← offset pa pgsize
        Vm.mapLoop boxAt permissions last (a + pgsize) pa
      else crash) := funext fun boxAt => by rw [Vm.mapLoop]
  rw [hgiven, mapLoop]
  refine (mapPage_follows permissions a pa).bind fun _ => (follows_pure ()).ite ?_
  by_cases h : a + pgsize < 2 ^ 32
  · simp only [dif_pos h]
    exact (offset_follows pa pgsize).bind fun pa => mapLoop_follows permissions last (a + pgsize) pa
  · simp only [dif_neg h]
    exact follows_crash
termination_by 2 ^ 32 - a
decreasing_by
  simp only [pgsize] at h ⊢
  omega

theorem mapPages_follows (va size pa permissions : Nat) :
    Follows (forecast kend all) (mapPages kend va size pa permissions) fun boxAt =>
      Vm.mapPages boxAt va size pa permissions :=
  (follows_checkedSub size 1).bind fun n => (offset_follows va (toSigned n)).bind fun e =>
    mapLoop_follows permissions (pageRounddown e) (pageRounddown va) pa

/-- **The loop of `setupkvm` follows the one with given boxes.** -/
theorem mapAll_follows (ks : List Kmap) :
    Follows (forecast kend all) (mapAll kend ks) fun boxAt => Vm.mapAll boxAt ks := by
  induction ks with
  | nil => exact follows_pure ()
  | cons k ks ih => exact (mapPages_follows ..).bind fun _ => ih

end Follow

/-! ## 4. The entries the four regions need -/

/-- The directory is as it was outside the entries from `lo` to `hi`. -/
def Within (lo hi : Nat) (s t : Paging) : Prop :=
  ∀ i, t.pgdir i = s.pgdir i ∨ lo ≤ i ∧ i ≤ hi

theorem Within.trans {lo hi : Nat} {s t u : Paging} (h : Within lo hi s t) (h' : Within lo hi t u) :
    Within lo hi s u := by
  intro i
  rcases h' i with e | e
  · rw [e]
    exact h i
  · exact Or.inr e

theorem Within.mono {lo hi lo' hi' : Nat} {s t : Paging} (h : Within lo hi s t) (hlo : lo' ≤ lo)
    (hhi : hi ≤ hi') : Within lo' hi' s t :=
  fun i => (h i).imp id fun b => ⟨Nat.le_trans hlo b.1, Nat.le_trans b.2 hhi⟩

section Touch

variable {boxAt : Nat → Nat} {s : Paging}

theorem keeps_pgdir {α : Type} {n : Prog Paging Unit α} (h : ∀ s, (n s).2.pgdir = s.pgdir)
    (d : Nat → Nat) : Keeps Paging.pgdir n (· = d) := by
  intro v hv s hs
  rw [h s, hs]
  exact hv

theorem mapPage_within (permissions pa : Nat) {a : Nat} (ha : a < 2 ^ 32) :
    Ends id (Vm.mapPage boxAt permissions a pa) s fun _ t =>
      Within (a / 4194304) (a / 4194304) s t := by
  have hidx : pageDirIndex a = a / 4194304 := by
    rw [pageDirIndex_eq]
    omega
  have hwalk : Ends id (Vm.walkpgdir boxAt a true) s fun _ t =>
      Within (a / 4194304) (a / 4194304) s t := by
    intro t ht i
    cases ht
    refine (given_changes boxAt a true _ i).imp id fun h => ?_
    rw [h.1, hidx]
    exact ⟨Nat.le_refl _, Nat.le_refl _⟩
  refine ends_bind_of hwalk (fun pte t ht => ?_) (fun _ _ h => h) fun _ h => h
  have hrest : Keeps Paging.pgdir (do
      let e ← readEntry pte
      require (¬ contains e present)
      writeEntry pte (newEntry permissions pa)) (· = t.pgdir) :=
    keeps_bind (keeps_pgdir (readEntry_pgdir pte) _) fun _ => keeps_bind (keeps_require _) fun _ =>
      keeps_pgdir (writeEntry_pgdir pte _) _
  intro u hu i
  cases hu
  have hsame := hrest _ rfl u rfl
  exact (congrFun hsame i) ▸ ht i

/-- The loop stays between the entries of its first and its last page, by induction on the number
    of pages behind the first. -/
theorem mapLoop_within (permissions : Nat) {last : Nat} (hlast : last < 2 ^ 32) :
    ∀ (k pa : Nat) {s : Paging} {a : Nat}, last = a + 4096 * k →
    Ends id (Vm.mapLoop boxAt permissions last a pa) s fun _ t =>
      Within (a / 4194304) (last / 4194304) s t := by
  intro k
  induction k with
  | zero =>
    intro pa s a hk
    obtain rfl : last = a := hk
    rw [Vm.mapLoop]
    refine ends_bind_of (mapPage_within permissions pa hlast) (fun _ t ht => ?_) (fun _ _ h => h)
      fun _ h => h
    rw [if_pos rfl]
    exact ends_pure ht
  | succ k ih =>
    intro pa s a hk
    have ha : a < last := by omega
    have hnext : a + pgsize < 2 ^ 32 := by
      simp only [pgsize]
      omega
    have hle : a / 4194304 ≤ last / 4194304 := Nat.div_le_div_right (Nat.le_of_lt ha)
    have hrest : last = a + pgsize + 4096 * k := by
      simp only [pgsize]
      omega
    rw [Vm.mapLoop]
    refine ends_bind_of (mapPage_within permissions pa (Nat.lt_trans ha hlast)) (fun _ t ht => ?_)
      (fun _ _ h => h.mono (Nat.le_refl _) hle) fun _ h => h.mono (Nat.le_refl _) hle
    rw [if_neg (Nat.ne_of_lt ha), dif_pos hnext]
    have hmove : Ends id (offset pa pgsize : Prog Paging Unit Nat) t fun _ u => u = t := by
      unfold offset
      rw [if_pos (by decide)]
      exact ends_checkedAdd rfl rfl
    refine ends_bind_of hmove (fun pa' u hu => ?_) (fun _ u hu => ?_) fun u hu => ?_
    · cases hu
      refine ends_mono (ih pa' hrest) fun _ w hw => ?_
      exact (ht.mono (Nat.le_refl _) hle).trans
        (hw.mono (Nat.div_le_div_right (Nat.le_add_right _ _)) (Nat.le_refl _))
    · cases hu
      exact ht.mono (Nat.le_refl _) hle
    · cases hu
      exact ht.mono (Nat.le_refl _) hle

theorem mapPages_within (pa permissions : Nat) {va size : Nat} (hsize : 0 < size)
    (hend : va + (size - 1) < 2 ^ 32) :
    Ends id (Vm.mapPages boxAt va size pa permissions) s fun _ t =>
      Within (va / 4194304) ((va + (size - 1)) / 4194304) s t := by
  have hlast := Nat.lt_of_le_of_lt (pageRounddown_le (va + (size - 1))) hend
  have hk : pageRounddown (va + (size - 1)) =
      pageRounddown va + 4096 * ((va + (size - 1)) / 4096 - va / 4096) := by
    simp only [pageRounddown, pgsize]
    omega
  have hfirst : pageRounddown va / 4194304 = va / 4194304 := by
    simp only [pageRounddown, pgsize]
    omega
  have hstop : pageRounddown (va + (size - 1)) / 4194304 = (va + (size - 1)) / 4194304 := by
    simp only [pageRounddown, pgsize]
    omega
  have hloop : Ends id (Vm.mapLoop boxAt permissions (pageRounddown (va + (size - 1)))
      (pageRounddown va) pa) s fun _ t => Within (pageRounddown va / 4194304)
        (pageRounddown (va + (size - 1)) / 4194304) s t := mapLoop_within permissions hlast _ pa hk
  rw [hfirst, hstop] at hloop
  unfold Vm.mapPages
  exact (gives_checkedSub hsize).then ((gives_offset hend).then hloop)

/-- The entries of the directory the kernel needs: 56 for its memory, 8 for the devices. -/
abbrev KernelEntry (i : Nat) : Prop := 512 ≤ i ∧ i < 568 ∨ 1016 ≤ i ∧ i < 1024

/-- A region that lies in the address space, on entries of the kernel. -/
structure Kmap.Placed (k : Kmap) : Prop where
  pos : 0 < addrSub k.pEnd k.pStart
  stop : k.virt + (addrSub k.pEnd k.pStart - 1) < 2 ^ 32
  entries : ∀ i, k.virt / 4194304 ≤ i →
    i ≤ (k.virt + (addrSub k.pEnd k.pStart - 1)) / 4194304 → KernelEntry i

/-- **Regions on entries of the kernel change no other entry.** -/
theorem mapAll_touches {ks : List Kmap} (h : ∀ k ∈ ks, Kmap.Placed k) :
    ∀ s, Ends id (Vm.mapAll boxAt ks) s fun _ t =>
      ∀ i, t.pgdir i = s.pgdir i ∨ KernelEntry i := by
  induction ks with
  | nil => exact fun s => ends_pure fun i => Or.inl rfl
  | cons k ks ih =>
    intro s
    obtain ⟨hpos, hstop, hentries⟩ := h k List.mem_cons_self
    have hone : ∀ {t : Paging},
        Within (k.virt / 4194304) ((k.virt + (addrSub k.pEnd k.pStart - 1)) / 4194304) s t →
        ∀ i, t.pgdir i = s.pgdir i ∨ KernelEntry i := fun ht i =>
      (ht i).imp id fun b => hentries i b.1 b.2
    refine ends_bind_of (mapPages_within k.pStart k.perm hpos hstop) (fun _ t ht => ?_)
      (fun _ _ ht => hone ht) fun _ ht => hone ht
    refine ends_mono (ih (fun k' hk' => h k' (List.mem_cons_of_mem _ hk')) t) fun _ u hu i => ?_
    rcases hu i with e | e
    · rw [e]
      exact hone ht i
    · exact Or.inr e

end Touch

/-! ## 5. The kernel's address space in the heap -/

theorem kernelMap_placed {d : Nat} (hlo : 0x80100 < d) (hhi : d < 0x8E000) :
    ∀ k ∈ kernelMap d, Kmap.Placed k := by
  have hmem : ∀ {va n : Nat}, 0x80000000 ≤ va → 0 < n → va + n ≤ 0x8E000000 → ∀ i,
      va / 4194304 ≤ i → i ≤ (va + (n - 1)) / 4194304 → KernelEntry i := by
    intro va n h1 h2 h3 i hi1 hi2
    exact Or.inl ⟨by omega, by omega⟩
  have hs1 : addrSub extmem 0 = 0x100000 := by decide
  have hs4 : addrSub 0 devspace = 0x2000000 := by decide
  intro k hk
  simp only [kernelMap, List.mem_cons, List.not_mem_nil, or_false] at hk
  rcases hk with rfl | rfl | rfl | rfl
  · constructor <;> simp only [hs1, kernbase]
    · decide
    · decide
    · exact hmem (by decide) (by decide) (by decide)
  · constructor <;> simp only [addrSub_text hlo hhi, kernlink, kernbase, extmem]
    · omega
    · omega
    · exact hmem (by decide) (by omega) (by omega)
  · constructor <;> simp only [addrSub_data hlo hhi]
    · omega
    · omega
    · exact hmem (by omega) (by omega) (by omega)
  · constructor <;> simp only [hs4, devspace]
    · decide
    · decide
    · exact fun i h1 h2 => Or.inr ⟨h1, Nat.lt_succ_of_le h2⟩

/-- Boxes that agree with the tables of a directory; the others are beyond the memory. -/
def boxesOf (s : Paging) (i : Nat) : Nat :=
  if contains (s.pgdir i) present then s.tableAt i else 0x90000000 + 4096 * i

section Count

variable {kend : Nat} {all : List Nat} {a : Allocator} {s t : Paging}

theorem mem_tablePages {i : Nat} (hi : i < 1024) (hp : Has s i) :
    s.tableAt i / 4096 ∈ tablePages s :=
  List.mem_map.mpr ⟨i, List.mem_filter.mpr ⟨List.mem_range.mpr hi, hp⟩, rfl⟩

theorem tableAt_aligned (s : Paging) (i : Nat) : s.tableAt i % 4096 = 0 := by
  simp only [Paging.tableAt, address, kernbase]
  omega

/-- The tables of a directory in the heap are boxes for it. -/
theorem Ledger.boxes (h : Ledger kend all a s) (hnd : all.Nodup)
    (hall : ∀ q ∈ all, lowest kend ≤ 4096 * q ∧ 4096 * q < highest) : FreshBoxes (boxesOf s) := by
  have hin : ∀ {i}, i < 1024 → Has s i → kernbase ≤ s.tableAt i ∧ s.tableAt i < highest := by
    intro i hi hp
    have hmem := h.pages.mem_iff.mp (List.mem_append_right (freePages a) (mem_tablePages hi hp))
    have hal := tableAt_aligned s i
    obtain ⟨_, hhigh⟩ := hall _ hmem
    refine ⟨Nat.le_add_left _ _, ?_⟩
    omega
  have hpages : (tablePages s).Nodup := (h.pages.nodup_iff.mpr hnd).of_append_right
  have htop : highest < 0x90000000 := by decide
  constructor
  · intro i _
    unfold boxesOf
    split
    · exact tableAt_aligned s i
    · omega
  · intro i hi
    unfold boxesOf
    split
    next hp =>
      obtain ⟨h1, h2⟩ := hin hi hp
      exact ⟨h1, Nat.lt_trans h2 (by decide)⟩
    next =>
      simp only [kernbase]
      omega
  · intro i hi j hj e
    unfold boxesOf at e
    by_cases hpi : Has s i <;> by_cases hpj : Has s j
    · rw [if_pos hpi, if_pos hpj] at e
      refine List.inj_on_of_nodup_map hpages (List.mem_filter.mpr ⟨List.mem_range.mpr hi, hpi⟩)
        (List.mem_filter.mpr ⟨List.mem_range.mpr hj, hpj⟩) ?_
      rw [e]
    · rw [if_pos hpi, if_neg hpj] at e
      have hlt := (hin hi hpi).2
      omega
    · rw [if_neg hpi, if_pos hpj] at e
      have hlt := (hin hj hpj).2
      omega
    · rw [if_neg hpi, if_neg hpj] at e
      omega

/-- An entry more is a table more. -/
theorem Lacks.length_lt (h : Lacks s t) : (tablePages s).length < (tablePages t).length := by
  obtain ⟨hext, i, hi, habs, hp⟩ := h
  unfold tablePages
  rw [List.length_map, List.length_map]
  have hnd : (i :: (List.range 1024).filter fun j => contains (s.pgdir j) present).Nodup :=
    List.nodup_cons.mpr ⟨fun h => habs (List.mem_filter.mp h).2, List.nodup_range.filter _⟩
  refine (hnd.subperm fun j hj => ?_).length_le
  rcases List.mem_cons.mp hj with rfl | hj
  · exact List.mem_filter.mpr ⟨List.mem_range.mpr hi, hp⟩
  · obtain ⟨hj1, hj2⟩ := List.mem_filter.mp hj
    exact List.mem_filter.mpr ⟨hj1, hext.has hj2⟩

/-- The kernel's directory has 64 page tables. -/
theorem tablePages_kernel (h : ∀ i < 1024, Has s i ↔ KernelEntry i) :
    (tablePages s).length = 64 := by
  have hfilter : ((List.range 1024).filter fun i => contains (s.pgdir i) present) =
      (List.range 1024).filter fun i => decide (KernelEntry i) :=
    List.filter_congr fun i hi => Bool.eq_iff_iff.mpr
      ((h i (List.mem_range.mp hi)).trans decide_eq_true_iff.symm)
  rw [tablePages, List.length_map, hfilter]
  decide +kernel

/-- The entries present once the kernel is mapped. -/
theorem kernel_entries {tables : Nat → Option (Nat → Nat)} {d : Nat}
    (htouch : ∀ i, s.pgdir i = (Paging.empty tables).pgdir i ∨ KernelEntry i)
    (hleaf : ∀ m < 2 ^ 20, s.leaf m = kernelLeaf d m) (i : Nat) (hi : i < 1024) :
    Has s i ↔ KernelEntry i := by
  constructor
  · intro hp
    rcases htouch i with e | e
    · unfold Has at hp
      rw [e] at hp
      exact absurd hp (empty_absent tables i)
    · exact e
  · intro hk
    by_contra hp
    have hnone : s.leaf (1024 * i) = none := by
      rw [Paging.leaf, Nat.mul_div_cancel_left i (by decide), if_neg hp]
    rw [hleaf _ (by omega)] at hnone
    unfold kernelLeaf at hnone
    rcases hk with hk | hk
    · rw [if_pos (by omega)] at hnone
      cases hnone
    · rw [if_neg (by omega), if_pos (by omega)] at hnone
      cases hnone

/-- The kernel's regions with given boxes. -/
theorem given_kernel {boxAt : Nat → Nat} (hbox : FreshBoxes boxAt) {d : Nat} (hlo : 0x80100 < d)
    (hhi : d < 0x8E000) (tables : Nat → Option (Nat → Nat)) :
    ∃ u, Vm.mapAll boxAt (kernelMap d) (Paging.empty tables) = (.ok (), u) ∧
      (tablePages u).length = 64 ∧ Grown (Paging.empty tables) u ∧
      ∀ m < 2 ^ 20, u.leaf m = kernelLeaf d m := by
  obtain ⟨u, hgiven, hgrown, hleaf⟩ := mapAll_kernel (empty_sound hbox tables) (empty_leaf tables)
    hlo hhi
  have hu : Vm.mapAll boxAt (kernelMap d) (Paging.empty tables) = (.ok (), u) :=
    gives_id_iff.mp hgiven
  have htouch : ∀ i, (Vm.mapAll boxAt (kernelMap d) (Paging.empty tables)).2.pgdir i =
      (Paging.empty tables).pgdir i ∨ KernelEntry i :=
    mapAll_touches (kernelMap_placed hlo hhi) (Paging.empty tables) _ rfl
  rw [hu] at htouch
  exact ⟨u, hu, tablePages_kernel (kernel_entries htouch hleaf), hgrown, hleaf⟩

end Count

/-- **The loop of `setupkvm` over the heap.** With 64 free pages it maps the kernel, and the heap
    and the page tables have shared the free pages; with fewer it aborts. -/
theorem mapAll_heap {kend d : Nat} {a : Allocator} (h : FreeInv kend a) (hlo : 0x80100 < d)
    (hhi : d < 0x8E000) (tables : Nat → Option (Nat → Nat)) :
    ∃ a' t, mapAll kend (kernelMap d) (a, Paging.empty tables) =
        (if 64 ≤ (freePages a).length then .ok () else .panic, (a', t)) ∧
      Ledger kend (freePages a) a' t ∧
      (64 ≤ (freePages a).length → (tablePages t).length = 64 ∧
        Grown (Paging.empty tables) t ∧ ∀ m < 2 ^ 20, t.leaf m = kernelLeaf d m) := by
  have hstart : Ledger kend (freePages a) a (Paging.empty tables) := by
    refine ⟨h, ?_, fun i hp => absurd hp (empty_absent tables i)⟩
    have hnone : tablePages (Paging.empty tables) = [] := by
      unfold tablePages
      rw [List.filter_eq_nil_iff.mpr fun i _ => empty_absent tables i]
      rfl
    rw [hnone, List.append_nil]
  obtain ⟨hinv, _, hend⟩ := (mapAll_follows (kernelMap d)).runs a (Paging.empty tables) hstart
  rcases hrun : mapAll kend (kernelMap d) (a, Paging.empty tables) with ⟨o, a', t⟩
  rw [hrun] at hinv hend
  have hledger : Ledger kend (freePages a) a' t := hinv
  -- the boxes are read off the directory the run has left
  have hboxes : FreshBoxes (boxesOf t) :=
    hledger.boxes h.nodup fun q hq => h.page_bounds hq
  have htold : Tells (boxesOf t) (Paging.empty tables) t :=
    ⟨hboxes, fun i _ _ hp => if_pos hp⟩
  obtain ⟨u, hu, hcount, hgrown, hleaf⟩ := given_kernel hboxes hlo hhi tables
  have hlen := hledger.pages.length_eq
  rw [List.length_append] at hlen
  rcases hend with hsame | ⟨hpanic, hspent, hmore⟩
  · have e : (o, t) = (.ok (), u) := (hsame _ htold).symm.trans hu
    obtain ⟨rfl, rfl⟩ := Prod.mk.inj e
    have henough : 64 ≤ (freePages a).length := by omega
    exact ⟨a', t, by rw [if_pos henough], hledger, fun _ => ⟨hcount, hgrown, hleaf⟩⟩
  · -- the code with given boxes goes on to 64 tables, and here every page is a table
    have hlt : (tablePages t).length < 64 := by
      have hlacks : Lacks t (Vm.mapAll (boxesOf t) (kernelMap d) (Paging.empty tables)).2 :=
        hmore _ htold
      rw [hu] at hlacks
      exact hcount ▸ hlacks.length_lt
    have hempty : (freePages a').length = 0 := congrArg List.length hspent
    have hfew : ¬ 64 ≤ (freePages a).length := by omega
    have ho : o = .panic := hpanic
    exact ⟨a', t, by rw [if_neg hfew, ho], hledger, fun h => absurd h hfew⟩

/-- `setupkvm` makes the box of the directory, and then runs the loop on an empty directory. -/
theorem setupkvm_starts {kend d p : Nat} {a a1 : Allocator} {s : Paging} {o : Outcome Unit Nat}
    {w : Allocator × Paging} (hbox : boxTable kend (a, s) = (.ok p, (a1, s)))
    (hdata : kernbase ≤ 4096 * d)
    (hrest : mapInto kend p (kernelMap d) (a1, Paging.empty s.tables) = (o, w)) :
    setupkvm kend (4096 * d) (a, s) = (o, w) := by
  have hzero : Gives id (onSnd (modify fun s => { s with pgdir := fun _ => 0 }) :
      Prog (Allocator × Paging) Unit Unit) (a1, s) (.ok ()) (a1, Paging.empty s.tables) :=
    gives_id_iff.mpr rfl
  have htop : Gives id (toVirt phystop : Prog (Allocator × Paging) Unit Nat)
      (a1, Paging.empty s.tables) (.ok (phystop + kernbase)) (a1, Paging.empty s.tables) :=
    gives_checkedAdd (by decide)
  have hks : Gives id (onSnd (kmap (4096 * d)) : Prog (Allocator × Paging) Unit (List Kmap))
      (a1, Paging.empty s.tables) (.ok (kernelMap d)) (a1, Paging.empty s.tables) := by
    refine gives_id_iff.mpr ?_
    unfold onSnd
    rw [gives_id_iff.mp (gives_kmap hdata _)]
  refine gives_id_iff.mp ?_
  unfold setupkvm
  refine (gives_id_iff.mpr hbox).then (hzero.then (htop.then ?_))
  exact (gives_require (by decide)).then (hks.then (gives_id_iff.mpr hrest))

/-- **`setupkvm` over the heap** takes 65 pages, one of them for the directory; with fewer it
    aborts. -/
theorem setupkvm_heap {kend d : Nat} {a : Allocator} (h : FreeInv kend a) (hlo : 0x80100 < d)
    (hhi : d < 0x8E000) (s : Paging) :
    (65 ≤ (freePages a).length ∧ ∃ p a' t, setupkvm kend (4096 * d) (a, s) = (.ok p, (a', t)) ∧
      p % 4096 = 0 ∧ kernbase ≤ p ∧ FreeInv kend a' ∧
      (freePages a' ++ p / 4096 :: tablePages t).Perm (freePages a) ∧
      (tablePages t).length = 64 ∧ (∀ i, Has t i → t.pgdir i % 4096 = 7) ∧
      ∀ m < 2 ^ 20, t.leaf m = kernelLeaf d m) ∨
    ((freePages a).length < 65 ∧ ∃ w, setupkvm kend (4096 * d) (a, s) = (.panic, w)) := by
  have hdata : kernbase ≤ 4096 * d := by
    simp only [kernbase]
    omega
  rcases boxTable_cases h s with ⟨p, a1, hbox, hfree, hal, hk, hperm⟩ | ⟨hbox, hspent⟩
  · obtain ⟨a', t, hrun, hledger, hmap⟩ := mapAll_heap hfree hlo hhi s.tables
    have hlen := hperm.length_eq
    rw [List.length_cons] at hlen
    by_cases hle : 64 ≤ (freePages a1).length
    · obtain ⟨hcount, _, hleaf⟩ := hmap hle
      rw [if_pos hle] at hrun
      have hinto : mapInto kend p (kernelMap d) (a1, Paging.empty s.tables) = (.ok p, (a', t)) :=
        gives_id_iff.mp ((gives_id_iff.mpr hrun).attempt_ok.then (gives_pure p))
      refine Or.inl ⟨by omega, p, a', t, setupkvm_starts hbox hdata hinto, hal, hk, hledger.free,
        ?_, hcount, hledger.flags, hleaf⟩
      exact (List.perm_middle.trans (hledger.pages.cons _)).trans hperm.symm
    · rw [if_neg hle] at hrun
      have hinto : mapInto kend p (kernelMap d) (a1, Paging.empty s.tables) =
          (.panic, (a', t)) := by
        refine gives_id_iff.mp (Gives.then_panic (gives_id_iff.mpr ?_))
        simp only [attempt, hrun]
      exact Or.inr ⟨by omega, (a', t), setupkvm_starts hbox hdata hinto⟩
  · refine Or.inr ⟨by rw [hspent]; decide, (a, s), gives_id_iff.mp ?_⟩
    unfold setupkvm
    exact (gives_id_iff.mpr hbox).then_panic

end Sprocket.Vm.Heap
