/-
  File:      Sprocket/Vm/MapPages.lean
  Subject:   WHAT `map_pages` DOES TO THE TRANSLATION: exactly the pages of the range are mapped.

  A page directory is `Sound` when every present entry has a page table of its own, and the boxes
  for the entries that are not present are new. Everything is said about `Paging.leaf`, the entry
  the hardware finds for a page:

  * `walkpgdir_gives` -- finding the place of an entry changes no leaf, also when a page table is
    made: it is empty, and it is nobody else's;
  * `mapPage_gives`, `mapPage_refuses` -- the body of the loop sets the leaf of one page that had
    none, and panics at a page that has one;
  * `mapPages_gives`, `mapPages_refuses` -- by induction on the number of pages, the whole call;
  * `mapPages_installs` -- the same, said about the walk of the MMU.
-/
import Sprocket.Vm.Paging

namespace Sprocket.Vm

open Prog

/-! ## 1. Bits of entries -/

/-- A flag among the low twelve bits is read from these. -/
theorem contains_mod {e flags : Nat} (h : flags < 2 ^ 12) :
    contains e flags = contains (e % 4096) flags := by
  have hand : e &&& flags = e % 4096 &&& flags := by
    have hlt : e &&& flags < 2 ^ 12 := Nat.and_lt_two_pow e h
    calc e &&& flags = (e &&& flags) % 2 ^ 12 := (Nat.mod_eq_of_lt hlt).symm
      _ = e % 2 ^ 12 &&& flags % 2 ^ 12 := Nat.and_mod_two_pow
      _ = e % 4096 &&& flags := by rw [Nat.mod_eq_of_lt h]
  unfold contains
  rw [hand]

/-- The low bits joined to an aligned address. -/
theorem or_aligned {pa flags : Nat} (ha : pa % 4096 = 0) (h : flags < 4096) :
    flags ||| pa = pa + flags := by
  have e : pa = 2 ^ 12 * (pa / 4096) := by omega
  rw [Nat.or_comm, e]
  exact (Nat.two_pow_add_eq_or_of_lt h _).symm

theorem newEntry_present (permissions pa : Nat) :
    contains (newEntry permissions pa) present = true := by
  have hodd : newEntry permissions pa % 2 ^ 1 = 1 := by
    unfold newEntry
    rw [Nat.or_mod_two_pow, Nat.or_mod_two_pow]
    rcases Nat.mod_two_eq_zero_or_one permissions with hp | hp <;>
      rcases Nat.mod_two_eq_zero_or_one pa with ha | ha <;> simp [hp, ha]
  unfold contains
  rw [Nat.and_one_is_mod]
  exact beq_iff_eq.mpr hodd

theorem dirEntry_eq {phys : Nat} (h : phys % 4096 = 0) : dirEntry phys = phys + 7 := by
  unfold dirEntry
  rw [Nat.or_assoc, Nat.or_assoc, Nat.zero_or, Nat.or_comm]
  exact or_aligned h (by decide)

theorem dirEntry_flags {phys : Nat} (h : phys % 4096 = 0) :
    contains (dirEntry phys) present = true ∧ contains (dirEntry phys) writable = true ∧
      address (dirEntry phys) = phys := by
  have hmod : (phys + 7) % 4096 = 7 := by omega
  have hflags : ∀ flags < 2 ^ 12, contains (phys + 7) flags = contains 7 flags := by
    intro flags hlt
    rw [contains_mod hlt, hmod]
  rw [dirEntry_eq h, hflags present (by decide), hflags writable (by decide)]
  refine ⟨by decide, by decide, ?_⟩
  unfold address
  omega

theorem newEntry_eq {permissions pa : Nat} (hperm : permissions < 8) (ha : pa % 4096 = 0) :
    newEntry permissions pa = pa + (permissions ||| 1) :=
  or_aligned ha (Nat.lt_trans (Nat.or_lt_two_pow (n := 3) hperm (by decide)) (by decide))

/-- The parts of an entry `map_pages` writes. -/
theorem newEntry_parts {permissions pa : Nat} (hperm : permissions < 8) (ha : pa % 4096 = 0) :
    address (newEntry permissions pa) = pa ∧
      ∀ flags < 2 ^ 12, contains (newEntry permissions pa) flags =
        contains (permissions ||| 1) flags := by
  have hlt : permissions ||| 1 < 8 := Nat.or_lt_two_pow (n := 3) hperm (by decide)
  rw [newEntry_eq hperm ha]
  refine ⟨?_, fun flags hf => ?_⟩
  · unfold address
    omega
  · have hmod : (pa + (permissions ||| 1)) % 4096 = permissions ||| 1 := by omega
    rw [contains_mod hf, hmod]

/-! ## 2. Sound directories -/

/-- **Every present entry has a page table of its own**, and the boxes for the others are new:
    page-aligned, in kernel memory, and apart from these tables and from each other. -/
structure Sound (boxAt : Nat → Nat) (s : Paging) : Prop where
  table : ∀ i < 1024, contains (s.pgdir i) present = true → (s.tables (s.tableAt i)).isSome
  bound : ∀ i < 1024, contains (s.pgdir i) present = true → s.tableAt i < 2 ^ 32
  own : ∀ i < 1024, ∀ j < 1024, contains (s.pgdir i) present = true →
    contains (s.pgdir j) present = true → s.tableAt i = s.tableAt j → i = j
  box : ∀ i < 1024, contains (s.pgdir i) present = false →
    boxAt i % 4096 = 0 ∧ kernbase ≤ boxAt i ∧ boxAt i < 2 ^ 32
  fresh : ∀ i < 1024, contains (s.pgdir i) present = false → ∀ j < 1024,
    contains (s.pgdir j) present = true → s.tableAt j ≠ boxAt i
  distinct : ∀ i < 1024, ∀ j < 1024, contains (s.pgdir i) present = false →
    contains (s.pgdir j) present = false → boxAt i = boxAt j → i = j

/-- Every page table is in a box of its own: page-aligned, and in kernel memory. -/
structure FreshBoxes (boxAt : Nat → Nat) : Prop where
  aligned : ∀ i < 1024, boxAt i % 4096 = 0
  kernel : ∀ i < 1024, kernbase ≤ boxAt i ∧ boxAt i < 2 ^ 32
  distinct : ∀ i < 1024, ∀ j < 1024, boxAt i = boxAt j → i = j

/-- An empty directory. -/
def Paging.empty (tables : Nat → Option (Nat → Nat)) : Paging := ⟨fun _ => 0, tables⟩

theorem empty_absent (tables : Nat → Option (Nat → Nat)) (i : Nat) :
    ¬ contains ((Paging.empty tables).pgdir i) present = true := by
  show ¬ contains 0 present = true
  decide

theorem empty_sound {boxAt : Nat → Nat} (h : FreshBoxes boxAt) (tables : Nat → Option (Nat → Nat)) :
    Sound boxAt (Paging.empty tables) where
  table i _ hp := absurd hp (empty_absent tables i)
  bound i _ hp := absurd hp (empty_absent tables i)
  own i _ _ _ hp := absurd hp (empty_absent tables i)
  box i hi _ := ⟨h.aligned i hi, h.kernel i hi⟩
  fresh _ _ _ j _ hp := absurd hp (empty_absent tables j)
  distinct i hi j hj _ _ := h.distinct i hi j hj

theorem empty_leaf (tables : Nat → Option (Nat → Nat)) (m : Nat) :
    (Paging.empty tables).leaf m = none := if_neg (empty_absent tables _)

/-- Boxes in a row, a megabyte behind the kernel. -/
def rowOfBoxes (i : Nat) : Nat := 0x80200000 + 4096 * i

theorem rowOfBoxes_fresh : FreshBoxes rowOfBoxes where
  aligned i _ := by
    unfold rowOfBoxes
    omega
  kernel i hi := by
    unfold rowOfBoxes
    simp only [kernbase]
    omega
  distinct i _ j _ h := by
    unfold rowOfBoxes at h
    omega

/-- The directory keeps its entries, and new ones may be written through. -/
def Grown (s t : Paging) : Prop :=
  ∀ i, t.pgdir i = s.pgdir i ∨ contains (t.pgdir i) writable = true

theorem Grown.trans {s t u : Paging} (h : Grown s t) (h' : Grown t u) : Grown s u := by
  intro i
  rcases h' i with e | e
  · rw [e]
    exact h i
  · exact Or.inr e

/-- The directory with a new page table for entry `i`. -/
def Paging.withTable (boxAt : Nat → Nat) (s : Paging) (i : Nat) : Paging where
  pgdir := Function.update s.pgdir i (dirEntry (boxAt i - kernbase))
  tables := Function.update s.tables (boxAt i) (some fun _ => 0)

section Walk

variable {boxAt : Nat → Nat} {s : Paging} {i : Nat}

theorem withTable_same (h : Sound boxAt s) (hi : i < 1024)
    (habs : contains (s.pgdir i) present = false) :
    contains ((s.withTable boxAt i).pgdir i) present = true ∧
      contains ((s.withTable boxAt i).pgdir i) writable = true ∧
      (s.withTable boxAt i).tableAt i = boxAt i := by
  obtain ⟨hal, hlow, _⟩ := h.box i hi habs
  have hphys : (boxAt i - kernbase) % 4096 = 0 := by
    simp only [kernbase] at hlow ⊢
    omega
  obtain ⟨h1, h2, h3⟩ := dirEntry_flags hphys
  have hentry : (s.withTable boxAt i).pgdir i = dirEntry (boxAt i - kernbase) :=
    Function.update_self ..
  rw [Paging.tableAt, hentry, h3]
  exact ⟨h1, h2, Nat.sub_add_cancel hlow⟩

theorem withTable_other {j : Nat} (hne : j ≠ i) :
    (s.withTable boxAt i).pgdir j = s.pgdir j ∧ (s.withTable boxAt i).tableAt j = s.tableAt j := by
  have hentry : (s.withTable boxAt i).pgdir j = s.pgdir j := Function.update_of_ne hne ..
  exact ⟨hentry, by rw [Paging.tableAt, hentry, Paging.tableAt]⟩

/-- The tables that were there are still there. -/
theorem withTable_tables (h : Sound boxAt s) (hi : i < 1024)
    (habs : contains (s.pgdir i) present = false) {j : Nat} (hj : j < 1024)
    (hp : contains (s.pgdir j) present = true) :
    (s.withTable boxAt i).tables (s.tableAt j) = s.tables (s.tableAt j) :=
  Function.update_of_ne (h.fresh i hi habs j hj hp) ..

theorem withTable_sound (h : Sound boxAt s) (hi : i < 1024)
    (habs : contains (s.pgdir i) present = false) : Sound boxAt (s.withTable boxAt i) := by
  obtain ⟨hp, _, htab⟩ := withTable_same h hi habs
  obtain ⟨_, _, hhigh⟩ := h.box i hi habs
  have hold : ∀ {j : Nat}, contains ((s.withTable boxAt i).pgdir j) present = false →
      j ≠ i ∧ contains (s.pgdir j) present = false := by
    intro j hj
    have hne : j ≠ i := by
      rintro rfl
      exact absurd (hp.symm.trans hj) (by decide)
    exact ⟨hne, by rwa [(withTable_other hne).1] at hj⟩
  constructor
  · intro j hj hpj
    by_cases hne : j = i
    · rw [hne, htab]
      show (Function.update s.tables (boxAt i) (some fun _ => 0) (boxAt i)).isSome = true
      rw [Function.update_self]
      rfl
    · rw [(withTable_other hne).1] at hpj
      rw [(withTable_other hne).2, withTable_tables h hi habs hj hpj]
      exact h.table j hj hpj
  · intro j hj hpj
    by_cases hne : j = i
    · rw [hne, htab]
      exact hhigh
    · rw [(withTable_other hne).1] at hpj
      rw [(withTable_other hne).2]
      exact h.bound j hj hpj
  · intro j hj k hk hpj hpk hjk
    by_cases hji : j = i <;> by_cases hki : k = i
    · rw [hji, hki]
    · rw [(withTable_other hki).1] at hpk
      rw [hji, htab, (withTable_other hki).2] at hjk
      exact absurd hjk.symm (h.fresh i hi habs k hk hpk)
    · rw [(withTable_other hji).1] at hpj
      rw [hki, htab, (withTable_other hji).2] at hjk
      exact absurd hjk (h.fresh i hi habs j hj hpj)
    · rw [(withTable_other hji).1] at hpj
      rw [(withTable_other hki).1] at hpk
      rw [(withTable_other hji).2, (withTable_other hki).2] at hjk
      exact h.own j hj k hk hpj hpk hjk
  · exact fun j hj hpj => h.box j hj (hold hpj).2
  · intro j hj hpj k hk hpk
    obtain ⟨hne, habs'⟩ := hold hpj
    by_cases hki : k = i
    · rw [hki, htab]
      exact fun e => hne (h.distinct j hj i hi habs' habs e.symm)
    · rw [(withTable_other hki).1] at hpk
      rw [(withTable_other hki).2]
      exact h.fresh j hj habs' k hk hpk
  · exact fun j hj k hk hpj hpk => h.distinct j hj k hk (hold hpj).2 (hold hpk).2

/-- A new page table is empty: no leaf changes. -/
theorem withTable_leaf (h : Sound boxAt s) (hi : i < 1024)
    (habs : contains (s.pgdir i) present = false) {m : Nat} (hm : m < 2 ^ 20) :
    (s.withTable boxAt i).leaf m = s.leaf m := by
  obtain ⟨hp, _, htab⟩ := withTable_same h hi habs
  unfold Paging.leaf
  by_cases hmi : m / 1024 = i
  · have hnew : (s.withTable boxAt i).tables (boxAt i) = some fun _ => 0 := Function.update_self ..
    rw [hmi, if_pos hp, if_neg (Bool.eq_false_iff.mp habs), htab, hnew]
    dsimp only
    exact if_neg (by decide)
  · have hj : m / 1024 < 1024 := by omega
    rw [(withTable_other hmi).1, (withTable_other hmi).2]
    by_cases hpm : contains (s.pgdir (m / 1024)) present = true
    · rw [if_pos hpm, if_pos hpm, withTable_tables h hi habs hj hpm]
    · rw [if_neg hpm, if_neg hpm]

/-- **Finding the place of an entry changes no leaf.** -/
theorem walkpgdir_gives (h : Sound boxAt s) {va : Nat} (hva : va < 2 ^ 32) :
    ∃ t, Gives id (walkpgdir boxAt va true) s
        (.ok (t.tableAt (va / 4096 / 1024), va / 4096 % 1024)) t ∧
      Sound boxAt t ∧ (∀ m < 2 ^ 20, t.leaf m = s.leaf m) ∧ Grown s t ∧
      contains (t.pgdir (va / 4096 / 1024)) present = true := by
  have hi : va / 4096 / 1024 < 1024 := by omega
  unfold walkpgdir
  rw [pageDirIndex_page hva, pageTableIndex_eq]
  by_cases hp : contains (s.pgdir (va / 4096 / 1024)) present = true
  · refine ⟨s, gives_get.then ?_, h, fun m _ => rfl, fun i => Or.inl rfl, hp⟩
    dsimp only
    rw [if_pos hp]
    exact (gives_checkedAdd (h.bound _ hi hp)).then (gives_pure _)
  · have habs := Bool.eq_false_iff.mpr hp
    obtain ⟨hp', hw, htab⟩ := withTable_same h hi habs
    refine ⟨s.withTable boxAt (va / 4096 / 1024), gives_get.then ?_, withTable_sound h hi habs,
      fun m hm => withTable_leaf h hi habs hm, fun j => ?_, hp'⟩
    · have hphys : ∀ t, Gives id (toPhys (boxAt (va / 4096 / 1024)) : Prog Paging Unit Nat) t
          (.ok (boxAt (va / 4096 / 1024) - kernbase)) t := fun t =>
        gives_checkedSub (h.box _ hi habs).2.1
      dsimp only
      rw [if_neg hp, if_pos rfl, htab]
      refine Gives.then (gives_modify _) ((hphys _).then ?_)
      exact (gives_modify _).then (gives_pure _)
    · by_cases hj : j = va / 4096 / 1024
      · rw [hj]
        exact Or.inr hw
      · exact Or.inl (withTable_other hj).1

end Walk

/-! ## 3. Writing one entry -/

/-- The page tables with entry `k` of the table of directory entry `i` written. -/
def Paging.setEntry (s : Paging) (i k e : Nat) (tab : Nat → Nat) : Paging :=
  { s with tables := Function.update s.tables (s.tableAt i) (some (Function.update tab k e)) }

section Write

variable {boxAt : Nat → Nat} {s : Paging}

theorem setEntry_sound (h : Sound boxAt s) {i k e : Nat} {tab : Nat → Nat} :
    Sound boxAt (s.setEntry i k e tab) where
  table j hj hpj := by
    have htables : (s.setEntry i k e tab).tables =
        Function.update s.tables (s.tableAt i) (some (Function.update tab k e)) := rfl
    have hat : (s.setEntry i k e tab).tableAt j = s.tableAt j := rfl
    rw [hat, htables]
    by_cases hji : s.tableAt j = s.tableAt i
    · rw [hji, Function.update_self]
      rfl
    · rw [Function.update_of_ne hji]
      exact h.table j hj hpj
  bound := h.bound
  own := h.own
  box := h.box
  fresh := h.fresh
  distinct := h.distinct

/-- Writing a present entry changes the leaf of its page, and no other: the page table is used by
    one directory entry only. -/
theorem setEntry_leaf (h : Sound boxAt s) {n e : Nat} {tab : Nat → Nat} (hn : n < 2 ^ 20)
    (hp : contains (s.pgdir (n / 1024)) present = true)
    (htab : s.tables (s.tableAt (n / 1024)) = some tab) (he : contains e present = true) {m : Nat}
    (hm : m < 2 ^ 20) :
    (s.setEntry (n / 1024) (n % 1024) e tab).leaf m = if m = n then some e else s.leaf m := by
  have htables : (s.setEntry (n / 1024) (n % 1024) e tab).tables =
      Function.update s.tables (s.tableAt (n / 1024))
        (some (Function.update tab (n % 1024) e)) := rfl
  have hdir : (s.setEntry (n / 1024) (n % 1024) e tab).pgdir = s.pgdir := rfl
  have hat : ∀ j, (s.setEntry (n / 1024) (n % 1024) e tab).tableAt j = s.tableAt j := fun _ => rfl
  unfold Paging.leaf
  rw [hdir, hat, htables]
  by_cases hpm : contains (s.pgdir (m / 1024)) present = true
  · by_cases hsame : m / 1024 = n / 1024
    · rw [hsame, if_pos hp, if_pos hp, Function.update_self, htab]
      dsimp only
      by_cases hmn : m = n
      · rw [hmn, Function.update_self, if_pos he, if_pos rfl]
      · have hk : m % 1024 ≠ n % 1024 := by omega
        rw [Function.update_of_ne hk, if_neg hmn]
    · have hne : s.tableAt (m / 1024) ≠ s.tableAt (n / 1024) := fun hj =>
        hsame (h.own _ (by omega) _ (by omega) hpm hp hj)
      have hmn : m ≠ n := fun hj => hsame (by rw [hj])
      rw [if_pos hpm, if_pos hpm, Function.update_of_ne hne, if_neg hmn]
  · have hmn : m ≠ n := by
      rintro rfl
      exact hpm hp
    rw [if_neg hpm, if_neg hpm, if_neg hmn]

/-- Up to the test of the entry, the body of the loop changes no leaf. -/
theorem mapPage_reads (h : Sound boxAt s) (permissions pa : Nat) {a : Nat} (ha : a < 2 ^ 32) :
    ∃ t tab, Sound boxAt t ∧ Grown s t ∧ (∀ m < 2 ^ 20, t.leaf m = s.leaf m) ∧
      contains (t.pgdir (a / 4096 / 1024)) present = true ∧
      t.tables (t.tableAt (a / 4096 / 1024)) = some tab ∧
      ∀ o u, Gives id (do
          require (¬ contains (tab (a / 4096 % 1024)) present)
          writeEntry (t.tableAt (a / 4096 / 1024), a / 4096 % 1024)
            (newEntry permissions pa)) t o u →
        Gives id (mapPage boxAt permissions a pa) s o u := by
  obtain ⟨t, hg, hs, hleaf, hgrown, hp⟩ := walkpgdir_gives h ha
  obtain ⟨tab, htab⟩ := Option.isSome_iff_exists.mp (hs.table _ (by omega) hp)
  refine ⟨t, tab, hs, hgrown, hleaf, hp, htab, ?_⟩
  intro o u hrest
  have hread : Gives id (readEntry (t.tableAt (a / 4096 / 1024), a / 4096 % 1024)) t
      (.ok (tab (a / 4096 % 1024))) t :=
    gives_get.then ((gives_ofOption htab).then (gives_pure _))
  unfold mapPage
  exact hg.then (hread.then hrest)

/-- The leaf of a page whose table is there is the entry in it. -/
theorem leaf_eq {n : Nat} {tab : Nat → Nat} (hp : contains (s.pgdir (n / 1024)) present = true)
    (htab : s.tables (s.tableAt (n / 1024)) = some tab) :
    s.leaf n = if contains (tab (n % 1024)) present then some (tab (n % 1024)) else none := by
  rw [Paging.leaf, if_pos hp, htab]

theorem mapPage_gives (h : Sound boxAt s) (permissions pa : Nat) {a : Nat} (ha : a < 2 ^ 32)
    (hnone : s.leaf (a / 4096) = none) :
    ∃ t, Gives id (mapPage boxAt permissions a pa) s (.ok ()) t ∧ Sound boxAt t ∧
      Grown s t ∧ ∀ m < 2 ^ 20,
        t.leaf m = if m = a / 4096 then some (newEntry permissions pa) else s.leaf m := by
  have hn : a / 4096 < 2 ^ 20 := by omega
  obtain ⟨t, tab, hs, hgrown, hleaf, hp, htab, hcode⟩ := mapPage_reads h permissions pa ha
  have habs : ¬ contains (tab (a / 4096 % 1024)) present = true := by
    intro hpe
    have hl := hleaf _ hn
    rw [hnone, leaf_eq hp htab, if_pos hpe] at hl
    exact absurd hl (Option.some_ne_none _)
  refine ⟨t.setEntry (a / 4096 / 1024) (a / 4096 % 1024) (newEntry permissions pa) tab, ?_,
    setEntry_sound hs, hgrown.trans fun _ => Or.inl rfl, fun m hm => ?_⟩
  · refine hcode _ _ ((gives_require habs).then ?_)
    exact gives_get.then ((gives_ofOption htab).then (gives_modify _))
  · rw [setEntry_leaf hs hn hp htab (newEntry_present permissions pa) hm, hleaf m hm]

/-- **A page that is mapped is refused**, and no leaf has changed. -/
theorem mapPage_refuses (h : Sound boxAt s) (permissions pa : Nat) {a : Nat} (ha : a < 2 ^ 32)
    (hsome : s.leaf (a / 4096) ≠ none) :
    ∃ t, Gives id (mapPage boxAt permissions a pa) s .panic t ∧
      ∀ m < 2 ^ 20, t.leaf m = s.leaf m := by
  obtain ⟨t, tab, _, _, hleaf, hp, htab, hcode⟩ := mapPage_reads h permissions pa ha
  refine ⟨t, hcode _ _ ?_, hleaf⟩
  have hpe : contains (tab (a / 4096 % 1024)) present = true := by
    by_contra habs
    have hl := hleaf (a / 4096) (by omega)
    rw [leaf_eq hp htab, if_neg habs] at hl
    exact hsome hl.symm
  exact (gives_require_not (not_not.mpr hpe)).then_panic

end Write

/-! ## 4. The loop -/

/-- The leaves `f` with the pages `n, …, n + k - 1` mapped to the physical pages from `pa` on. -/
def mapped (f : Nat → Option Nat) (n k pa permissions : Nat) (m : Nat) : Option Nat :=
  if n ≤ m ∧ m < n + k then some (newEntry permissions (pa + 4096 * (m - n))) else f m

theorem mapped_zero (f : Nat → Option Nat) (n pa permissions m : Nat) :
    mapped f n 0 pa permissions m = f m := if_neg (by omega)

theorem mapped_congr {f g : Nat → Option Nat} (m : Nat) (h : f m = g m) (n k pa permissions : Nat) :
    mapped f n k pa permissions m = mapped g n k pa permissions m := by
  unfold mapped
  rw [h]

/-- The first page, and then the others. -/
theorem mapped_succ (f : Nat → Option Nat) (n k pa permissions m : Nat) :
    mapped (fun m => if m = n then some (newEntry permissions pa) else f m) (n + 1) k (pa + 4096)
      permissions m = mapped f n (k + 1) pa permissions m := by
  unfold mapped
  dsimp only
  by_cases hmn : m = n
  · have h1 : ¬ (n + 1 ≤ n ∧ n < n + 1 + k) := by omega
    have h2 : n ≤ n ∧ n < n + (k + 1) := by omega
    rw [hmn, if_neg h1, if_pos rfl, if_pos h2, Nat.sub_self]
    rfl
  · by_cases hin : n + 1 ≤ m ∧ m < n + 1 + k
    · have h2 : n ≤ m ∧ m < n + (k + 1) := by omega
      have e : pa + 4096 + 4096 * (m - (n + 1)) = pa + 4096 * (m - n) := by omega
      rw [if_pos hin, if_pos h2, e]
    · have h2 : ¬ (n ≤ m ∧ m < n + (k + 1)) := by omega
      rw [if_neg hin, if_neg hmn, if_neg h2]

/-- One page, and the loop goes on behind it. -/
theorem mapLoop_next {boxAt : Nat → Nat} {permissions last a pa : Nat} {s t u : Paging}
    {o : Outcome Unit Unit} (hg : Gives id (mapPage boxAt permissions a pa) s (.ok ()) t)
    (hlt : a < last) (hal : a % 4096 = 0) (hlast : last < 2 ^ 32) (hlal : last % 4096 = 0)
    (hpa : pa + 4096 < 2 ^ 32)
    (hrest : Gives id (mapLoop boxAt permissions last (a + 4096) (pa + 4096)) t o u) :
    Gives id (mapLoop boxAt permissions last a pa) s o u := by
  have hnext : a + pgsize < 2 ^ 32 := by
    simp only [pgsize]
    omega
  rw [mapLoop]
  refine hg.then ?_
  rw [if_neg (Nat.ne_of_lt hlt), dif_pos hnext]
  exact (gives_offset_page hpa).then hrest

theorem next_lt {pa k : Nat} (h : pa + 4096 * (k + 1) < 2 ^ 32) : pa + 4096 < 2 ^ 32 :=
  Nat.lt_of_le_of_lt (Nat.add_le_add_left (Nat.le_mul_of_pos_right 4096 k.succ_pos) pa) h

/-- The leaves behind the first page. -/
theorem mapped_behind {s t : Paging} {a pa permissions : Nat}
    (hleaf : ∀ m < 2 ^ 20,
      t.leaf m = if m = a / 4096 then some (newEntry permissions pa) else s.leaf m) (k : Nat)
    {m : Nat} (hm : m < 2 ^ 20) :
    mapped t.leaf ((a + 4096) / 4096) k (pa + 4096) permissions m =
      mapped s.leaf (a / 4096) (k + 1) pa permissions m := by
  rw [Nat.add_div_right a (by decide)]
  exact (mapped_congr (f := t.leaf)
    (g := fun m => if m = a / 4096 then some (newEntry permissions pa) else s.leaf m) m
    (hleaf m hm) _ _ _ _).trans (mapped_succ ..)

/-- **The loop**, by induction on the number of pages behind the first. -/
theorem mapLoop_gives {boxAt : Nat → Nat} (permissions : Nat) {last : Nat} (hlast : last < 2 ^ 32) :
    ∀ (k pa : Nat) {s : Paging} {a : Nat}, Sound boxAt s → a % 4096 = 0 → last = a + 4096 * k →
    pa + 4096 * k < 2 ^ 32 → (∀ m, a / 4096 ≤ m → m ≤ last / 4096 → s.leaf m = none) →
    ∃ t, Gives id (mapLoop boxAt permissions last a pa) s (.ok ()) t ∧ Sound boxAt t ∧ Grown s t ∧
      ∀ m < 2 ^ 20, t.leaf m = mapped s.leaf (a / 4096) (k + 1) pa permissions m
  | 0, pa, s, a, h, _, hk, _, hnone => by
      obtain rfl : last = a := hk
      obtain ⟨t, hg, hs, hgrown, hleaf⟩ := mapPage_gives h permissions pa hlast
        (hnone _ (Nat.le_refl _) (Nat.le_refl _))
      refine ⟨t, ?_, hs, hgrown, fun m hm => ?_⟩
      · rw [mapLoop]
        refine hg.then ?_
        rw [if_pos rfl]
        exact gives_pure ()
      · rw [hleaf m hm, ← mapped_succ, mapped_zero]
  | k + 1, pa, s, a, h, hal, hk, hpa, hnone => by
      obtain ⟨t, hg, hs, hgrown, hleaf⟩ := mapPage_gives h permissions pa (by omega)
        (hnone _ (Nat.le_refl _) (by omega))
      have hrest : ∀ m, (a + 4096) / 4096 ≤ m → m ≤ last / 4096 → t.leaf m = none := by
        intro m h1 h2
        rw [hleaf m (by omega), if_neg (by omega)]
        exact hnone m (by omega) h2
      obtain ⟨u, hg', hu, hgrown', hleaf'⟩ := mapLoop_gives permissions hlast k (pa + 4096) hs
        (a := a + 4096) (by omega) (by omega) (by omega) hrest
      refine ⟨u, ?_, hu, hgrown.trans hgrown', fun m hm => ?_⟩
      · exact mapLoop_next hg (by omega) hal hlast (by omega) (next_lt hpa) hg'
      · rw [hleaf' m hm, mapped_behind hleaf (k + 1) hm]

/-- **The loop stops at a page that is mapped**, by induction on the number of pages before it:
    these are mapped by then, and every other leaf is as it was. -/
theorem mapLoop_refuses {boxAt : Nat → Nat} (permissions : Nat) {last : Nat}
    (hlast : last < 2 ^ 32) (hlal : last % 4096 = 0) :
    ∀ (k pa : Nat) {s : Paging} {a : Nat}, Sound boxAt s → a % 4096 = 0 → a + 4096 * k ≤ last →
    pa + 4096 * k < 2 ^ 32 → (∀ m, a / 4096 ≤ m → m < a / 4096 + k → s.leaf m = none) →
    s.leaf (a / 4096 + k) ≠ none →
    ∃ t, Gives id (mapLoop boxAt permissions last a pa) s .panic t ∧
      ∀ m < 2 ^ 20, t.leaf m = mapped s.leaf (a / 4096) k pa permissions m
  | 0, pa, s, a, h, _, hk, _, _, hsome => by
      obtain ⟨t, hg, hleaf⟩ := mapPage_refuses h permissions pa (by omega) hsome
      refine ⟨t, ?_, fun m hm => ?_⟩
      · rw [mapLoop]
        exact hg.then_panic
      · rw [hleaf m hm, mapped_zero]
  | k + 1, pa, s, a, h, hal, hk, hpa, hnone, hsome => by
      obtain ⟨t, hg, hs, _, hleaf⟩ := mapPage_gives h permissions pa (by omega)
        (hnone _ (Nat.le_refl _) (by omega))
      have hrest : ∀ m, (a + 4096) / 4096 ≤ m → m < (a + 4096) / 4096 + k → t.leaf m = none := by
        intro m h1 h2
        rw [hleaf m (by omega), if_neg (by omega)]
        exact hnone m (by omega) (by omega)
      have hstop : t.leaf ((a + 4096) / 4096 + k) ≠ none := by
        rw [hleaf _ (by omega), if_neg (by omega),
          show (a + 4096) / 4096 + k = a / 4096 + (k + 1) by omega]
        exact hsome
      obtain ⟨u, hg', hleaf'⟩ := mapLoop_refuses permissions hlast hlal k (pa + 4096) hs
        (a := a + 4096) (by omega) (by omega) (by omega) hrest hstop
      refine ⟨u, ?_, fun m hm => ?_⟩
      · exact mapLoop_next hg (by omega) hal hlast hlal (next_lt hpa) hg'
      · rw [hleaf' m hm, mapped_behind hleaf k hm]

/-! ## 5. The whole call -/

/-- `map_pages` runs the loop from the first page of the range to the last. -/
theorem mapPages_starts {boxAt : Nat → Nat} {s t : Paging} {va size pa permissions : Nat}
    {o : Outcome Unit Unit} (hsize : 0 < size) (hend : va + (size - 1) < 2 ^ 32)
    (hg : Gives id (mapLoop boxAt permissions (pageRounddown (va + (size - 1))) (pageRounddown va)
      pa) s o t) : Gives id (mapPages boxAt va size pa permissions) s o t := by
  unfold mapPages
  exact (gives_checkedSub hsize).then ((gives_offset hend).then hg)

theorem pageRounddown_div (a : Nat) : pageRounddown a / 4096 = a / 4096 :=
  Nat.mul_div_cancel _ (by decide)

theorem pageRounddown_mod (a : Nat) : pageRounddown a % 4096 = 0 := Nat.mul_mod_left _ _

theorem pageRounddown_le (a : Nat) : pageRounddown a ≤ a := Nat.div_mul_le_self _ _

/-- **`map_pages` maps exactly the pages of the range.** -/
theorem mapPages_gives {boxAt : Nat → Nat} {s : Paging} (h : Sound boxAt s) {va size : Nat}
    (pa permissions : Nat) (hsize : 0 < size) (hend : va + (size - 1) < 2 ^ 32)
    (hpa : pa + ((va + (size - 1)) / 4096 - va / 4096) * 4096 < 2 ^ 32)
    (hnone : ∀ m, va / 4096 ≤ m → m ≤ (va + (size - 1)) / 4096 → s.leaf m = none) :
    ∃ t, Gives id (mapPages boxAt va size pa permissions) s (.ok ()) t ∧ Sound boxAt t ∧ Grown s t ∧
      ∀ m < 2 ^ 20, t.leaf m =
        mapped s.leaf (va / 4096) ((va + (size - 1)) / 4096 - va / 4096 + 1) pa permissions m := by
  have hle : va / 4096 ≤ (va + (size - 1)) / 4096 := Nat.div_le_div_right (Nat.le_add_right _ _)
  obtain ⟨t, hg, hs, hgrown, hleaf⟩ := mapLoop_gives permissions
    (Nat.lt_of_le_of_lt (pageRounddown_le _) hend)
    ((va + (size - 1)) / 4096 - va / 4096) pa (a := pageRounddown va) h
    (pageRounddown_mod va) (by unfold pageRounddown; simp only [pgsize]; omega) (by omega)
    (by rw [pageRounddown_div, pageRounddown_div]; exact hnone)
  rw [pageRounddown_div] at hleaf
  exact ⟨t, mapPages_starts hsize hend hg, hs, hgrown, hleaf⟩

/-- **`map_pages` stops at the first page of the range that is mapped.** -/
theorem mapPages_refuses {boxAt : Nat → Nat} {s : Paging} (h : Sound boxAt s) {va size : Nat}
    (pa permissions : Nat) (hsize : 0 < size) (hend : va + (size - 1) < 2 ^ 32)
    (hpa : pa + ((va + (size - 1)) / 4096 - va / 4096) * 4096 < 2 ^ 32) {k : Nat}
    (hk : va / 4096 + k ≤ (va + (size - 1)) / 4096)
    (hnone : ∀ m, va / 4096 ≤ m → m < va / 4096 + k → s.leaf m = none)
    (hsome : s.leaf (va / 4096 + k) ≠ none) :
    ∃ t, Gives id (mapPages boxAt va size pa permissions) s .panic t ∧
      ∀ m < 2 ^ 20, t.leaf m = mapped s.leaf (va / 4096) k pa permissions m := by
  obtain ⟨t, hg, hleaf⟩ := mapLoop_refuses permissions
    (Nat.lt_of_le_of_lt (pageRounddown_le (va + (size - 1))) hend) (pageRounddown_mod _) k pa
    (a := pageRounddown va) h (pageRounddown_mod va)
    (by unfold pageRounddown; simp only [pgsize]; omega) (by omega)
    (by rw [pageRounddown_div]; exact hnone) (by rw [pageRounddown_div]; exact hsome)
  rw [pageRounddown_div] at hleaf
  exact ⟨t, mapPages_starts hsize hend hg, hleaf⟩

/-- The address is in a page of the range of `size` bytes from `va` on. -/
abbrev InPages (va size v : Nat) : Prop :=
  pageRounddown va ≤ v ∧ v < pageRounddown (va + (size - 1)) + pgsize

theorem inPages_iff {va size v : Nat} :
    InPages va size v ↔ va / 4096 ≤ v / 4096 ∧ v / 4096 ≤ (va + (size - 1)) / 4096 := by
  unfold InPages pageRounddown
  simp only [pgsize]
  omega

theorem walk_eq_none_iff {s : Paging} {v : Nat} : s.walk v = none ↔ s.leaf (v / 4096) = none :=
  Option.map_eq_none_iff

theorem walk_congr {s t : Paging} {v : Nat} (h : t.leaf (v / 4096) = s.leaf (v / 4096)) :
    t.walk v = s.walk v := by
  unfold Paging.walk
  rw [h]

/-- An entry `map_pages` wrote, as the walk finds it. -/
theorem walk_newEntry {s : Paging} {v permissions pa : Nat}
    (hl : s.leaf (v / 4096) = some (newEntry permissions pa)) (hperm : permissions < 8)
    (ha : pa % 4096 = 0) : s.walk v = some (pa + v % 4096, permissions ||| present) := by
  have hlt : permissions ||| 1 < 8 := Nat.or_lt_two_pow (n := 3) hperm (by decide)
  have hflags : newEntry permissions pa % 4096 = permissions ||| 1 := by
    rw [newEntry_eq hperm ha]
    omega
  unfold Paging.walk
  rw [hl, Option.map_some, (newEntry_parts hperm ha).1, hflags]

/-- The walk of the MMU once the pages of the range are mapped. -/
theorem walk_mapped {s t : Paging} {va size pa permissions : Nat} (hperm : permissions < 8)
    (hal : pa % 4096 = 0) (hleaf : ∀ m < 2 ^ 20, t.leaf m =
      mapped s.leaf (va / 4096) ((va + (size - 1)) / 4096 - va / 4096 + 1) pa permissions m)
    {v : Nat} (hv : v < 2 ^ 32) :
    t.walk v = if InPages va size v
      then some (pa + (v - pageRounddown va), permissions ||| present) else s.walk v := by
  have hl := hleaf (v / 4096) (by omega)
  have hle : va / 4096 ≤ (va + (size - 1)) / 4096 := Nat.div_le_div_right (Nat.le_add_right _ _)
  by_cases hin : InPages va size v
  · have hpages := inPages_iff.mp hin
    have hdist : pa + 4096 * (v / 4096 - va / 4096) + v % 4096 = pa + (v - pageRounddown va) := by
      unfold pageRounddown
      simp only [pgsize]
      omega
    rw [mapped, if_pos ⟨hpages.1, by omega⟩] at hl
    rw [if_pos hin, walk_newEntry hl hperm (by omega), hdist]
  · have hout : ¬ (va / 4096 ≤ v / 4096 ∧
        v / 4096 < va / 4096 + ((va + (size - 1)) / 4096 - va / 4096 + 1)) := by
      intro hpages
      exact hin (inPages_iff.mpr ⟨hpages.1, by omega⟩)
    rw [mapped, if_neg hout] at hl
    rw [if_neg hin, walk_congr hl]

/-- The first page of the range that is present. -/
theorem first_present {s : Paging} {va size v : Nat} (hv : InPages va size v)
    (hw : s.walk v ≠ none) :
    ∃ k, va / 4096 + k ≤ (va + (size - 1)) / 4096 ∧ s.leaf (va / 4096 + k) ≠ none ∧
      ∀ m, va / 4096 ≤ m → m < va / 4096 + k → s.leaf m = none := by
  obtain ⟨h1, h2⟩ := inPages_iff.mp hv
  have hpage : (s.leaf (va / 4096 + (v / 4096 - va / 4096))).isSome := by
    rw [Nat.add_sub_cancel' h1, Option.isSome_iff_ne_none]
    exact fun hn => hw (walk_eq_none_iff.mpr hn)
  have hex : ∃ k, (s.leaf (va / 4096 + k)).isSome := ⟨_, hpage⟩
  have hbound : Nat.find hex ≤ v / 4096 - va / 4096 := Nat.find_min' hex hpage
  refine ⟨Nat.find hex, by omega, Option.isSome_iff_ne_none.mp (Nat.find_spec hex), ?_⟩
  intro m hm hlt
  have hmin := Nat.find_min hex (m := m - va / 4096) (by omega)
  rwa [Nat.add_sub_cancel' hm, Option.not_isSome_iff_eq_none] at hmin

/-- **`map_pages` installs exactly the mapping it was asked for.** For a sound directory, a range
    that ends within the address space, an aligned `pa` with room for the pages, and permissions
    made of the three flags. If no page of the range is present, the call returns `Ok`: every
    address in these pages is translated to `pa` plus its distance from the first page, with the
    permissions and `PRESENT` as flags, and every other address as before. If one is present, the
    call panics, and the entries that were present are as they were. -/
theorem mapPages_installs {boxAt : Nat → Nat} {s : Paging} (h : Sound boxAt s)
    {va size pa permissions : Nat} (hsize : 0 < size) (hend : va + (size - 1) < 2 ^ 32)
    (hal : pa % pgsize = 0)
    (hpa : pa + (pageRounddown (va + (size - 1)) + pgsize - pageRounddown va) ≤ 2 ^ 32)
    (hperm : permissions < 8) :
    ((∀ v, InPages va size v → s.walk v = none) →
      ∃ t, mapPages boxAt va size pa permissions s = (.ok (), t) ∧ ∀ v < 2 ^ 32,
        t.walk v = if InPages va size v
          then some (pa + (v - pageRounddown va), permissions ||| present) else s.walk v) ∧
    ((∃ v, InPages va size v ∧ s.walk v ≠ none) →
      ∃ t, mapPages boxAt va size pa permissions s = (.panic, t) ∧ ∀ n < 2 ^ 20,
        s.leaf n ≠ none → t.leaf n = s.leaf n) := by
  have hpa' : pa + ((va + (size - 1)) / 4096 - va / 4096) * 4096 < 2 ^ 32 := by
    unfold pageRounddown at hpa
    simp only [pgsize] at hpa
    omega
  constructor
  · intro hfree
    have hnone : ∀ m, va / 4096 ≤ m → m ≤ (va + (size - 1)) / 4096 → s.leaf m = none := by
      intro m h1 h2
      have hm : 4096 * m / 4096 = m := Nat.mul_div_cancel_left m (by decide)
      have hw := hfree (4096 * m) (inPages_iff.mpr (by rw [hm]; exact ⟨h1, h2⟩))
      rwa [walk_eq_none_iff, hm] at hw
    obtain ⟨t, hg, _, _, hleaf⟩ := mapPages_gives h pa permissions hsize hend hpa' hnone
    obtain ⟨hok, hstate⟩ := hg s rfl
    exact ⟨t, Prod.ext hok hstate, fun v hv => walk_mapped hperm hal hleaf hv⟩
  · intro hmapped
    obtain ⟨v, hv, hw⟩ := hmapped
    obtain ⟨k, hk, hsome, hfirst⟩ := first_present hv hw
    obtain ⟨t, hg, hleaf⟩ := mapPages_refuses h pa permissions hsize hend hpa' hk hfirst hsome
    obtain ⟨hpanic, hstate⟩ := hg s rfl
    refine ⟨t, Prod.ext hpanic hstate, ?_⟩
    intro n hn hleft
    rw [hleaf n hn, mapped, if_neg]
    intro hin
    exact hleft (hfirst n hin.1 hin.2)

/-- Two bytes across a page boundary: both pages are mapped, to neighbouring pages. -/
theorem mapPages_installs_twoPages :
    ∃ t, mapPages rowOfBoxes 0x1FFF 2 0x5000 writable (Paging.empty fun _ => none) = (.ok (), t) ∧
      t.walk 0x1ABC = some (0x5ABC, 3) ∧ t.walk 0x2ABC = some (0x6ABC, 3) ∧
      t.walk 0x3000 = none := by
  have hend : 0x1FFF + (2 - 1) < 2 ^ 32 := by decide
  have hpa : 0x5000 + (pageRounddown (0x1FFF + (2 - 1)) + pgsize - pageRounddown 0x1FFF) ≤ 2 ^ 32 :=
    by decide
  have hperm : writable < 8 := by decide
  obtain ⟨t, ht, hwalk⟩ := (mapPages_installs (empty_sound rowOfBoxes_fresh fun _ => none)
    (by decide) hend (by decide) hpa hperm).1 fun v _ => walk_eq_none_iff.mpr (empty_leaf _ _)
  exact ⟨t, ht, (hwalk _ (by decide)).trans (by decide), (hwalk _ (by decide)).trans (by decide),
    (hwalk _ (by decide)).trans (walk_eq_none_iff.mpr (empty_leaf _ _))⟩

end Sprocket.Vm
