/-
  File:      Sprocket/Lib/Runs.lean
  Subject:   RUNS OF CONSECUTIVE NUMBERS: separated lists of runs and the set they cover.

  A run is a non-empty interval `lo, lo + 1, …, hi - 1`. A list of runs is `Separated` when each
  ends strictly before the next begins, with at least one number between them. Such a list is the
  canonical form of the set it covers:

  * `Separated.nodup_elems` -- no number is covered twice;
  * `Separated.mem_iff_isMaximal` -- the runs on the list are EXACTLY the maximal runs of the set;
  * `Separated.eq_of_elems` -- two such lists that cover one set are the same list;
  * `Separated.isFirstFit` -- the first run on the list that is long enough is the lowest one.
-/
import Mathlib.Data.List.Pairwise
import Mathlib.Tactic.Common

/-- A non-empty run of consecutive numbers. -/
@[ext] structure Run where
  lo : Nat
  len : Nat
  pos : 0 < len

namespace Run

/-- The number behind the last one of the run. -/
def hi (r : Run) : Nat := r.lo + r.len

/-- The numbers of the run. -/
def elems (r : Run) : List Nat := List.range' r.lo r.len

theorem mem_elems {r : Run} {x : Nat} : x ∈ r.elems ↔ r.lo ≤ x ∧ x < r.hi := List.mem_range'_1

theorem lo_lt_hi (r : Run) : r.lo < r.hi := Nat.lt_add_of_pos_right r.pos

/-- The numbers of a list of runs. -/
def elemsOf (l : List Run) : List Nat := l.flatMap elems

theorem mem_elemsOf {l : List Run} {x : Nat} :
    x ∈ elemsOf l ↔ ∃ r ∈ l, r.lo ≤ x ∧ x < r.hi := by
  rw [elemsOf, List.mem_flatMap]
  exact exists_congr fun r => and_congr_right fun _ => mem_elems

/-- Each run ends strictly before the next ones begin. -/
def Separated (l : List Run) : Prop := l.Pairwise fun a b => a.hi < b.lo

/-- **A maximal run of a set**: inside it, and not to be extended at either end. -/
structure IsMaximal (S : Nat → Prop) (r : Run) : Prop where
  inside : ∀ x, r.lo ≤ x → x < r.hi → S x
  above : ¬ S r.hi
  below : ∀ x, x + 1 = r.lo → ¬ S x

theorem Separated.nodup_elems : ∀ {l : List Run}, Separated l → (elemsOf l).Nodup
  | [], _ => List.nodup_nil
  | r :: l, h => by
      obtain ⟨hr, hl⟩ := List.pairwise_cons.mp h
      rw [elemsOf, List.flatMap_cons, List.nodup_append]
      refine ⟨List.nodup_range', Separated.nodup_elems hl, fun x hx y hy => ?_⟩
      obtain ⟨s, hs, h1, _⟩ := mem_elemsOf.mp hy
      have h2 := (mem_elems.mp hx).2
      have h3 := hr s hs
      omega

/-- Two runs of a separated list are the same or apart. -/
theorem Separated.apart {l : List Run} (h : Separated l) {r s : Run} (hr : r ∈ l) (hs : s ∈ l) :
    r = s ∨ r.hi < s.lo ∨ s.hi < r.lo := by
  induction l with
  | nil => exact absurd hr List.not_mem_nil
  | cons a l ih =>
    obtain ⟨ha, hl⟩ := List.pairwise_cons.mp h
    rcases List.mem_cons.mp hr with hra | hr <;> rcases List.mem_cons.mp hs with hsa | hs
    · exact Or.inl (hra.trans hsa.symm)
    · exact Or.inr (Or.inl (hra ▸ ha s hs))
    · exact Or.inr (Or.inr (hsa ▸ ha r hr))
    · exact ih hl hr hs

/-- A run of a separated list is maximal in what the list covers. -/
theorem Separated.isMaximal {l : List Run} (h : Separated l) {r : Run} (hr : r ∈ l) :
    IsMaximal (· ∈ elemsOf l) r where
  inside x h1 h2 := mem_elemsOf.mpr ⟨r, hr, h1, h2⟩
  above hm := by
    obtain ⟨s, hs, h1, h2⟩ := mem_elemsOf.mp hm
    have hlo := r.lo_lt_hi
    rcases h.apart hr hs with rfl | hlt | hlt <;> omega
  below x hx hm := by
    obtain ⟨s, hs, h1, h2⟩ := mem_elemsOf.mp hm
    have hlo := r.lo_lt_hi
    have hlo' := s.lo_lt_hi
    rcases h.apart hr hs with rfl | hlt | hlt <;> omega

/-- Two maximal runs that share a number are the same. -/
theorem IsMaximal.eq {S : Nat → Prop} {r s : Run} (hr : IsMaximal S r) (hs : IsMaximal S s)
    {x : Nat}
    (h1 : r.lo ≤ x) (h2 : x < r.hi) (h3 : s.lo ≤ x) (h4 : x < s.hi) : r = s := by
  -- a run that began earlier would cover the number before the other one
  have hlo : ∀ {a b : Run}, IsMaximal S a → IsMaximal S b → a.lo ≤ x → x < b.hi → a.lo ≤ b.lo := by
    intro a b ha hb hax hxb
    by_contra hlt
    exact ha.below (a.lo - 1) (by omega) (hb.inside _ (by omega) (by omega))
  -- and one that ended later would cover the number behind it
  have hhi : ∀ {a b : Run}, IsMaximal S a → IsMaximal S b → b.lo ≤ x → x < a.hi → b.hi ≤ a.hi := by
    intro a b ha hb hbx hxa
    by_contra hlt
    exact ha.above (hb.inside _ (by omega) (by omega))
  have elo : r.lo = s.lo := Nat.le_antisymm (hlo hr hs h1 h4) (hlo hs hr h3 h2)
  have ehi : r.hi = s.hi := Nat.le_antisymm (hhi hs hr h1 h4) (hhi hr hs h3 h2)
  unfold hi at ehi
  exact Run.ext elo (by omega)

/-- **The runs of a separated list are exactly the maximal runs of what it covers.** -/
theorem Separated.mem_iff_isMaximal {l : List Run} (h : Separated l) (r : Run) :
    r ∈ l ↔ IsMaximal (· ∈ elemsOf l) r := by
  refine ⟨h.isMaximal, fun hr => ?_⟩
  obtain ⟨s, hs, h1, h2⟩ := mem_elemsOf.mp (hr.inside r.lo (Nat.le_refl _) r.lo_lt_hi)
  rw [hr.eq (h.isMaximal hs) (Nat.le_refl _) r.lo_lt_hi h1 h2]
  exact hs

/-- The runs of a separated list are different ones. -/
theorem Separated.nodup {l : List Run} (h : Separated l) : l.Nodup := by
  refine List.Pairwise.imp ?_ h
  intro r s hlt e
  subst e
  exact absurd hlt (Nat.not_lt_of_gt r.lo_lt_hi)

/-- **The set determines the list.** -/
theorem Separated.eq_of_elems {l l' : List Run} (h : Separated l) (h' : Separated l')
    (hs : ∀ x, x ∈ elemsOf l ↔ x ∈ elemsOf l') : l = l' := by
  have hset : (fun x => x ∈ elemsOf l) = fun x => x ∈ elemsOf l' := funext fun x => propext (hs x)
  have hperm : l.Perm l' := by
    rw [List.perm_ext_iff_of_nodup h.nodup h'.nodup]
    intro r
    rw [h.mem_iff_isMaximal, h'.mem_iff_isMaximal, hset]
  refine List.Perm.eq_of_pairwise (fun r s _ _ h1 h2 => ?_) h h' hperm
  -- two runs cannot each lie below the other
  have h3 := r.lo_lt_hi
  have h4 := s.lo_lt_hi
  omega

/-- The lowest of the maximal runs with at least `n` numbers. -/
structure IsFirstFit (S : Nat → Prop) (n : Nat) (r : Run) : Prop where
  maximal : IsMaximal S r
  enough : n ≤ r.len
  lowest : ∀ s, IsMaximal S s → n ≤ s.len → r.lo ≤ s.lo

/-- The first run on the list that is long enough. -/
theorem Separated.isFirstFit {l before behind : List Run} {r : Run} {n : Nat} (h : Separated l)
    (hl : l = before ++ r :: behind) (hshort : ∀ s ∈ before, s.len < n) (hlong : n ≤ r.len) :
    IsFirstFit (· ∈ elemsOf l) n r where
  maximal := h.isMaximal (by simp [hl])
  enough := hlong
  lowest s hs hn := by
    have hmem := (h.mem_iff_isMaximal s).mpr hs
    rw [hl, List.mem_append, List.mem_cons] at hmem
    rcases hmem with hb | e | hb
    · exact absurd (hshort s hb) (Nat.not_lt_of_le hn)
    · exact Nat.le_of_eq (by rw [e])
    · rw [hl] at h
      have hlt := (List.pairwise_cons.mp (List.pairwise_append.mp h).2.1).1 s hb
      exact Nat.le_of_lt (Nat.lt_trans r.lo_lt_hi hlt)

end Run
