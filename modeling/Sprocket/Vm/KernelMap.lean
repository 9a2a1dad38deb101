/-
  File:      Sprocket/Vm/KernelMap.lean
  Subject:   `setupkvm` BUILDS THE KERNEL ADDRESS SPACE, for every 32-bit address.

  `KMAP` has four regions: the first megabyte, the kernel's text, its data with all memory behind
  it, and the devices at the top of the address space. Each goes through `map_pages`; the last one
  has its size from a subtraction that wraps, and ends with the address space.

  * `mapRegion_gives` -- `map_pages` on whole pages, in page numbers;
  * `kernelLeaf` -- what the four regions make of an empty directory, and `mapAll_kernel` that they
    do: no page is mapped twice;
  * `setupkvm_translates` -- the walk of the MMU afterwards.
-/
import Sprocket.Vm.MapPages

namespace Sprocket.Vm

open Prog

/-! ## 1. Regions of whole pages -/

/-- A region of `k` pages from page `n` on, mapped to the physical pages from `p` on. -/
theorem mapRegion_gives {boxAt : Nat → Nat} {s : Paging} (h : Sound boxAt s) (permissions : Nat)
    {va size pa n k p : Nat} (hva : va = 4096 * n) (hsize : size = 4096 * k) (hpa : pa = 4096 * p)
    (hk : 0 < k) (hn : n + k ≤ 2 ^ 20) (hp : p + k ≤ 2 ^ 20)
    (hnone : ∀ m, n ≤ m → m < n + k → s.leaf m = none) :
    ∃ t, Gives id (mapPages boxAt va size pa permissions) s (.ok ()) t ∧ Sound boxAt t ∧ Grown s t ∧
      ∀ m < 2 ^ 20, t.leaf m = mapped s.leaf n k (4096 * p) permissions m := by
  subst hpa
  have hfirst : va / 4096 = n := by omega
  have hlast : (va + (size - 1)) / 4096 = n + (k - 1) := by omega
  have hend : va + (size - 1) < 2 ^ 32 := by omega
  have hg := mapPages_gives h (4096 * p) permissions (by omega) hend
    (by omega) (fun m h1 h2 => hnone m (by omega) (by omega))
  rwa [hfirst, hlast, Nat.add_sub_cancel_left, Nat.sub_add_cancel hk] at hg

/-! ## 2. The four regions -/

/-- The entry of page `m` of the kernel, whose data begins at page `d`. -/
def kernelLeaf (d m : Nat) : Option Nat :=
  if 0x80000 ≤ m ∧ m < 0x8E000 then
    some (newEntry (if 0x80100 ≤ m ∧ m < d then 0 else writable) (4096 * (m - 0x80000)))
  else if 0xFE000 ≤ m then some (newEntry writable (4096 * m))
  else none

/-- The four regions, one after the other. -/
theorem mapped_kernelLeaf {d m : Nat} (hlo : 0x80100 < d) (hhi : d < 0x8E000) (hm : m < 2 ^ 20) :
    mapped (mapped (mapped (mapped (fun _ => none) 0x80000 0x100 (4096 * 0) writable)
      0x80100 (d - 0x80100) (4096 * 0x100) 0) d (0x8E000 - d) (4096 * (d - 0x80000)) writable)
      0xFE000 0x2000 (4096 * 0xFE000) writable m = kernelLeaf d m := by
  unfold mapped kernelLeaf
  by_cases h4 : 0xFE000 ≤ m
  · have e : 4096 * 0xFE000 + 4096 * (m - 0xFE000) = 4096 * m := by omega
    rw [if_pos (by omega), if_neg (by omega), if_pos h4, e]
  rw [if_neg (by omega)]
  by_cases h3 : d ≤ m ∧ m < d + (0x8E000 - d)
  · have e : 4096 * (d - 0x80000) + 4096 * (m - d) = 4096 * (m - 0x80000) := by omega
    rw [if_pos h3, if_pos (by omega), if_neg (by omega), e]
  rw [if_neg h3]
  by_cases h2 : 0x80100 ≤ m ∧ m < 0x80100 + (d - 0x80100)
  · have e : 4096 * 0x100 + 4096 * (m - 0x80100) = 4096 * (m - 0x80000) := by omega
    rw [if_pos h2, if_pos (by omega), if_pos (by omega), e]
  rw [if_neg h2]
  by_cases h1 : 0x80000 ≤ m ∧ m < 0x80000 + 0x100
  · have e : 4096 * 0 + 4096 * (m - 0x80000) = 4096 * (m - 0x80000) := by omega
    rw [if_pos h1, if_pos (by omega), if_neg (by omega), e]
  · rw [if_neg h1, if_neg (by omega), if_neg h4]

/-- The regions of `KMAP`, where the data begins at page `d`. -/
def kernelMap (d : Nat) : List Kmap := [
  ⟨kernbase, 0, extmem, writable⟩,
  ⟨kernlink, kernlink - kernbase, 4096 * d - kernbase, 0⟩,
  ⟨4096 * d, 4096 * d - kernbase, phystop, writable⟩,
  ⟨devspace, devspace, 0, writable⟩]

theorem gives_kmap {d : Nat} (hdata : kernbase ≤ 4096 * d) (s : Paging) :
    Gives id (kmap (4096 * d)) s (.ok (kernelMap d)) s := by
  unfold kmap
  refine Gives.then (gives_checkedSub (by decide)) ?_
  exact Gives.then (gives_checkedSub hdata) (Gives.then (gives_checkedSub hdata) (gives_pure _))

/-- The size of the text. -/
theorem addrSub_text {d : Nat} (hlo : 0x80100 < d) (hhi : d < 0x8E000) :
    addrSub (4096 * d - kernbase) (kernlink - kernbase) = 4096 * (d - 0x80100) := by
  unfold addrSub
  simp only [kernbase, kernlink, extmem]
  omega

/-- The size of the data and the memory behind it. -/
theorem addrSub_data {d : Nat} (hlo : 0x80100 < d) (hhi : d < 0x8E000) :
    addrSub phystop (4096 * d - kernbase) = 4096 * (0x8E000 - d) := by
  unfold addrSub
  simp only [kernbase, phystop]
  omega

/-- **The four calls of `map_pages`.** Each region is free when its turn comes. -/
theorem mapAll_kernel {boxAt : Nat → Nat} {s : Paging} (h : Sound boxAt s)
    (hempty : ∀ m, s.leaf m = none) {d : Nat} (hlo : 0x80100 < d) (hhi : d < 0x8E000) :
    ∃ t, Gives id (mapAll boxAt (kernelMap d)) s (.ok ()) t ∧
      Grown s t ∧ ∀ m < 2 ^ 20, t.leaf m = kernelLeaf d m := by
  have hp3 : 4096 * d - kernbase = 4096 * (d - 0x80000) := by
    simp only [kernbase]
    omega
  obtain ⟨s1, hg1, h1, hw1, hl1⟩ := mapRegion_gives h writable
    (show kernbase = 4096 * 0x80000 by decide) (show addrSub extmem 0 = 4096 * 0x100 by decide)
    (show 0 = 4096 * 0 by decide) (by decide) (by decide) (by decide) (fun m _ _ => hempty m)
  obtain ⟨s2, hg2, h2, hw2, hl2⟩ := mapRegion_gives h1 0
    (show kernlink = 4096 * 0x80100 by decide) (addrSub_text hlo hhi)
    (show kernlink - kernbase = 4096 * 0x100 by decide)
    (by omega) (by omega) (by omega) (fun m hm1 hm2 => by
      rw [hl1 m (by omega), mapped, if_neg (by omega)]
      exact hempty m)
  obtain ⟨s3, hg3, h3, hw3, hl3⟩ := mapRegion_gives h2 writable (Eq.refl (4096 * d))
    (addrSub_data hlo hhi) hp3 (by omega) (by omega) (by omega) (fun m hm1 hm2 => by
      rw [hl2 m (by omega), mapped, if_neg (by omega), hl1 m (by omega), mapped, if_neg (by omega)]
      exact hempty m)
  obtain ⟨s4, hg4, _, hw4, hl4⟩ := mapRegion_gives h3 writable
    (show devspace = 4096 * 0xFE000 by decide) (show addrSub 0 devspace = 4096 * 0x2000 by decide)
    (show devspace = 4096 * 0xFE000 by decide) (by decide) (by decide) (by decide)
    (fun m hm1 hm2 => by
      rw [hl3 m (by omega), mapped, if_neg (by omega), hl2 m (by omega), mapped, if_neg (by omega),
        hl1 m (by omega), mapped, if_neg (by omega)]
      exact hempty m)
  refine ⟨s4, ?_, ((hw1.trans hw2).trans hw3).trans hw4, fun m hm => ?_⟩
  · exact hg1.then (hg2.then (hg3.then (hg4.then (gives_pure ()))))
  · rw [hl4 m hm, ← mapped_kernelLeaf hlo hhi hm]
    refine mapped_congr m ((hl3 m hm).trans ?_) _ _ _ _
    refine mapped_congr m ((hl2 m hm).trans ?_) _ _ _ _
    refine mapped_congr m ((hl1 m hm).trans ?_) _ _ _ _
    exact mapped_congr m (hempty m) _ _ _ _

/-! ## 3. The address space -/

/-- **The intended kernel address space**: the physical address of `v`, and whether it may be
    written. -/
def kernelSpace (dataBegin v : Nat) : Option (Nat × Bool) :=
  if kernbase ≤ v ∧ v < kernbase + phystop then
    some (v - kernbase, decide ¬ (kernlink ≤ v ∧ v < dataBegin))
  else if devspace ≤ v then some (v, true)
  else none

/-- The walk over a leaf of `map_pages`. -/
theorem translate_newEntry {s : Paging} {v permissions pa : Nat}
    (hw : ∀ i, contains (s.pgdir i) present = true → contains (s.pgdir i) writable = true)
    (hl : s.leaf (v / 4096) = some (newEntry permissions pa)) (hperm : permissions < 8)
    (ha : pa % 4096 = 0) :
    s.translate v = some (pa + v % 4096, contains (permissions ||| 1) writable) := by
  obtain ⟨haddr, hflags⟩ := newEntry_parts hperm ha
  have hp : contains (s.pgdir (v / 4096 / 1024)) present = true := by
    by_contra hn
    rw [Paging.leaf, if_neg hn] at hl
    exact absurd hl.symm (Option.some_ne_none _)
  rw [Paging.translate, hl, Option.map_some, haddr, hflags writable (by decide),
    hw _ hp, Bool.true_and]

theorem translate_kernel {s : Paging} {d v : Nat} (hv : v < 2 ^ 32) (hlo : 0x80100 < d)
    (hhi : d < 0x8E000)
    (hw : ∀ i, contains (s.pgdir i) present = true → contains (s.pgdir i) writable = true)
    (hl : s.leaf (v / 4096) = kernelLeaf d (v / 4096)) :
    s.translate v = kernelSpace (4096 * d) v := by
  unfold kernelLeaf at hl
  unfold kernelSpace
  simp only [kernbase, kernlink, extmem, phystop, devspace]
  by_cases hmem : 0x80000 ≤ v / 4096 ∧ v / 4096 < 0x8E000
  · have hpa : 4096 * (v / 4096 - 0x80000) + v % 4096 = v - 0x80000000 := by omega
    rw [if_pos hmem] at hl
    rw [if_pos (by omega)]
    by_cases htext : 0x80100 ≤ v / 4096 ∧ v / 4096 < d
    · have hro : 0x80000000 + 0x100000 ≤ v ∧ v < 4096 * d := by omega
      rw [if_pos htext] at hl
      rw [translate_newEntry hw hl (by decide) (Nat.mul_mod_right _ _), hpa]
      simp only [hro, and_self, not_true_eq_false, decide_false]
      rfl
    · have hrw : ¬ (0x80000000 + 0x100000 ≤ v ∧ v < 4096 * d) := by omega
      rw [if_neg htext] at hl
      rw [translate_newEntry hw hl (by decide) (Nat.mul_mod_right _ _), hpa]
      simp only [hrw, not_false_eq_true, decide_true]
      rfl
  · rw [if_neg hmem] at hl
    rw [if_neg (by omega)]
    by_cases hdev : 0xFE000 ≤ v / 4096
    · have hpa : 4096 * (v / 4096) + v % 4096 = v := by omega
      rw [if_pos hdev] at hl
      rw [if_pos (by omega), translate_newEntry hw hl (by decide) (Nat.mul_mod_right _ _), hpa]
      rfl
    · rw [if_neg hdev] at hl
      rw [if_neg (by omega), Paging.translate, hl]
      rfl

theorem kernelLeaf_not_user {d m e : Nat} (h : kernelLeaf d m = some e) :
    contains e user = false := by
  have hentry : ∀ {permissions pa : Nat}, permissions = 0 ∨ permissions = writable →
      pa % 4096 = 0 → contains (newEntry permissions pa) user = false := by
    rintro permissions pa (rfl | rfl) ha
    · rw [(newEntry_parts (by decide) ha).2 user (by decide)]
      rfl
    · rw [(newEntry_parts (by decide) ha).2 user (by decide)]
      rfl
  unfold kernelLeaf at h
  split at h
  · rw [← Option.some.inj h]
    refine hentry ?_ (Nat.mul_mod_right _ _)
    split
    · exact Or.inl rfl
    · exact Or.inr rfl
  · split at h
    · rw [← Option.some.inj h]
      exact hentry (Or.inr rfl) (Nat.mul_mod_right _ _)
    · exact absurd h.symm (Option.some_ne_none e)

/-- **`setupkvm` builds exactly the kernel address space.** For every page-aligned start of the
    data segment behind the start of the text and below the top of memory, and wherever the page
    tables are put, it returns `Ok`; afterwards the walk of every 32-bit address gives
    `kernelSpace`, and no leaf is open to user code. -/
theorem setupkvm_translates {boxAt : Nat → Nat} (hbox : FreshBoxes boxAt) {dataBegin : Nat}
    (hal : dataBegin % pgsize = 0) (hlo : kernlink < dataBegin)
    (hhi : dataBegin < kernbase + phystop) (s : Paging) :
    ∃ t, setupkvm boxAt dataBegin s = (.ok (), t) ∧ ∀ v < 2 ^ 32,
      t.translate v = kernelSpace dataBegin v ∧
      ∀ e, t.leaf (v / 4096) = some e → contains e user = false := by
  obtain ⟨d, rfl⟩ : ∃ d, dataBegin = 4096 * d := Nat.dvd_of_mod_eq_zero hal
  have hd : 0x80100 < d ∧ d < 0x8E000 := by
    simp only [kernbase, kernlink, extmem, phystop] at hlo hhi
    omega
  obtain ⟨t, hg, hgrown, hleaf⟩ := mapAll_kernel (empty_sound hbox s.tables) (empty_leaf s.tables)
    hd.1 hd.2
  have hw : ∀ i, contains (t.pgdir i) present = true → contains (t.pgdir i) writable = true := by
    intro i hp
    rcases hgrown i with e | e
    · rw [e] at hp
      exact absurd hp (empty_absent s.tables i)
    · exact e
  have hrun : Gives id (setupkvm boxAt (4096 * d)) s (.ok ()) t := by
    have hdata : kernbase ≤ 4096 * d := Nat.le_trans (by decide) (Nat.le_of_lt hlo)
    unfold setupkvm
    refine (gives_modify _).then (Gives.then (gives_checkedAdd (by decide)) ?_)
    exact (gives_require (by decide)).then ((gives_kmap hdata _).then hg)
  refine ⟨t, Prod.ext_iff.mpr (hrun s rfl), fun v hv => ⟨?_, fun e he => ?_⟩⟩
  · exact translate_kernel hv hd.1 hd.2 hw (hleaf _ (by omega))
  · rw [hleaf _ (by omega)] at he
    exact kernelLeaf_not_user he

/-- One page of text: its last byte is read-only, the next one is data. -/
theorem setupkvm_translates_onePage :
    ∃ t, setupkvm rowOfBoxes 0x80101000 (Paging.empty fun _ => none) = (.ok (), t) ∧
      t.translate 0x80100FFF = some (0x100FFF, false) ∧
      t.translate 0x80101000 = some (0x101000, true) := by
  obtain ⟨t, ht, hv⟩ := setupkvm_translates rowOfBoxes_fresh
    (show 0x80101000 % pgsize = 0 by decide)
    (by decide) (by decide) (Paging.empty fun _ => none)
  exact ⟨t, ht, (hv _ (by decide)).1.trans (by decide), (hv _ (by decide)).1.trans (by decide)⟩

end Sprocket.Vm
