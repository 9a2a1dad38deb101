/-
  File:      Sprocket/Lib/Text.lean
  Subject:   MARKS IN A TEXT and what is put in their place.

  `fill marks s` goes through `s` once, from the left: where one of the marks begins its text is
  written and the mark is skipped, everywhere else the symbol is copied. With one mark this is the
  replacement of all its occurrences.

  Replacing one mark after the other is something else: a text put in for the first mark may be part
  of a second one, or be a mark itself. `fill_fill` says when the two agree.
-/
import Mathlib.Data.List.Find
import Mathlib.Data.List.Infix

namespace Text

variable {α : Type} [DecidableEq α]

/-- The mark at the beginning of a text. -/
def markAt (marks : List (List α × List α)) (s : List α) : Option (List α × List α) :=
  marks.find? fun m => m.1.isPrefixOf s

/-- The rest of the text, `k` symbols of which belong to a mark. -/
def fillFrom (marks : List (List α × List α)) : Nat → List α → List α
  | _, [] => []
  | k + 1, _ :: s => fillFrom marks k s
  | 0, c :: s =>
    match markAt marks (c :: s) with
    | some m => m.2 ++ fillFrom marks (m.1.length - 1) s
    | none => c :: fillFrom marks 0 s

/-- **Every mark is replaced by its text**, in one pass. -/
def fill (marks : List (List α × List α)) (s : List α) : List α := fillFrom marks 0 s

/-- All occurrences of `pat`, from the left. -/
def replace (pat text s : List α) : List α := fill [(pat, text)] s

section Rules

variable {marks : List (List α × List α)} {m : List α × List α} {s : List α} {c : α}

@[simp] theorem fill_nil : fill marks [] = [] := rfl

theorem fillFrom_skip (x s : List α) : fillFrom marks x.length (x ++ s) = fill marks s := by
  induction x with
  | nil => rfl
  | cons c x ih => exact ih

theorem markAt_prefix (h : markAt marks s = some m) : m ∈ marks ∧ m.1 <+: s :=
  ⟨List.mem_of_find?_eq_some h, List.isPrefixOf_iff_prefix.mp
    (List.find?_some (p := fun m : List α × List α => m.1.isPrefixOf s) h)⟩

theorem markAt_none_iff : markAt marks s = none ↔ ∀ m ∈ marks, ¬ m.1 <+: s := by
  simp [markAt, List.find?_eq_none]

/-- A mark is at the beginning. -/
theorem fill_mark (h : markAt marks (m.1 ++ s) = some m) (hne : m.1 ≠ []) :
    fill marks (m.1 ++ s) = m.2 ++ fill marks s := by
  obtain ⟨pat, text⟩ := m
  cases pat with
  | nil => exact absurd rfl hne
  | cons c pat =>
    rw [List.cons_append] at h
    show fillFrom marks 0 (c :: (pat ++ s)) = text ++ fill marks s
    rw [fillFrom, h]
    exact congrArg (text ++ ·) (fillFrom_skip pat s)

/-- No mark is at the beginning. -/
theorem fill_cons (h : markAt marks (c :: s) = none) : fill marks (c :: s) = c :: fill marks s := by
  show fillFrom marks 0 (c :: s) = c :: fill marks s
  rw [fillFrom, h]
  rfl

/-- A text in which no mark can begin is copied. -/
theorem fill_append {x : List α} (h : ∀ m ∈ marks, ∀ a ∈ m.1.head?, a ∉ x)
    (hne : ∀ m ∈ marks, m.1 ≠ []) : fill marks (x ++ s) = x ++ fill marks s := by
  induction x with
  | nil => rfl
  | cons c x ih =>
    have hnone : markAt marks (c :: (x ++ s)) = none := by
      refine markAt_none_iff.mpr fun m hm hprefix => ?_
      rcases m with ⟨_ | ⟨a, pat⟩, text⟩
      · exact hne _ hm rfl
      · have ha : a = c := (List.cons_prefix_cons.mp hprefix).1
        exact h _ hm a rfl (ha ▸ List.mem_cons_self)
    have hrest := ih fun m hm a ha hx => h m hm a ha (List.mem_cons_of_mem c hx)
    rw [List.cons_append, fill_cons hnone, hrest, List.cons_append]

end Rules

/-- **The mark `m` can be replaced before the others.** It does not begin inside of them, they do
    not begin in its text, and its text does not begin in them. -/
structure Before (m : List α × List α) (marks : List (List α × List α)) : Prop where
  nonempty : m.1 ≠ [] ∧ ∀ n ∈ marks, n.1 ≠ []
  inside : ∀ n ∈ marks, ∀ a ∈ m.1.head?, a ∉ n.1.tail
  text : m.2 ≠ []
  begins : ∀ n ∈ marks, ∀ a ∈ n.1.head?, a ∉ m.2
  first : ∀ n ∈ marks, ∀ a ∈ m.2.head?, a ∉ n.1

section Twice

variable {m : List α × List α} {marks : List (List α × List α)}

/-- A beginning of the new text that the inserted text cannot be in is a beginning of the old
    one. -/
theorem prefix_of_fill (hne : m.1 ≠ []) (htext : m.2 ≠ []) :
    ∀ {s q : List α}, (∀ a ∈ m.2.head?, a ∉ q) → q <+: fill [m] s → q <+: s := by
  intro s
  induction s with
  | nil => exact fun _ h => h
  | cons c s ih =>
    intro q hq h
    cases hat : markAt [m] (c :: s) with
    | some n =>
      obtain ⟨hmem, rest, hrest⟩ := markAt_prefix hat
      cases List.mem_singleton.mp hmem
      rw [← hrest] at hat h
      rw [fill_mark hat hne] at h
      cases q with
      | nil => exact List.nil_prefix
      | cons a q =>
        rcases m with ⟨pat, _ | ⟨b, text⟩⟩
        · exact absurd rfl htext
        · have hab : a = b := (List.cons_prefix_cons.mp h).1
          exact absurd List.mem_cons_self (hq a (by rw [hab]; rfl))
    | none =>
      rw [fill_cons hat] at h
      cases q with
      | nil => exact List.nil_prefix
      | cons a q =>
        obtain ⟨rfl, hrest⟩ := List.cons_prefix_cons.mp h
        have htail := ih (fun b hb hbq => hq b hb (List.mem_cons_of_mem a hbq)) hrest
        exact List.cons_prefix_cons.mpr ⟨rfl, htail⟩

/-- Another mark is copied whole. -/
theorem fill_other (h : Before m marks) {n : List α × List α} (hn : n ∈ marks) {r : List α}
    (hnot : ¬ m.1 <+: n.1 ++ r) : fill [m] (n.1 ++ r) = n.1 ++ fill [m] r := by
  rcases n with ⟨_ | ⟨c, pat⟩, text⟩
  · rfl
  · have hnone : markAt [m] (c :: (pat ++ r)) = none :=
      markAt_none_iff.mpr (List.forall_mem_singleton.mpr hnot)
    have hrest : fill [m] (pat ++ r) = pat ++ fill [m] r :=
      fill_append (List.forall_mem_singleton.mpr (h.inside _ hn))
        (List.forall_mem_singleton.mpr h.nonempty.1)
    exact (fill_cons hnone).trans (congrArg (c :: ·) hrest)

/-- Where `m` is not, the replacement of `m` shows the other marks as they were. -/
theorem markAt_fill (h : Before m marks) {s : List α} (hnot : ¬ m.1 <+: s) :
    markAt marks (fill [m] s) = markAt marks s := by
  refine List.find?_congr fun n hn => ?_
  rw [Bool.eq_iff_iff, List.isPrefixOf_iff_prefix, List.isPrefixOf_iff_prefix]
  refine ⟨prefix_of_fill h.nonempty.1 h.text (h.first n hn), ?_⟩
  rintro ⟨r, rfl⟩
  rw [fill_other h hn hnot]
  exact List.prefix_append _ _

/-- **One after the other is all at once.** -/
theorem fill_fill (h : Before m marks) (s : List α) :
    fill marks (fill [m] s) = fill (m :: marks) s := by
  -- on the length: a mark is skipped as a whole
  induction hlen : s.length using Nat.strong_induction_on generalizing s with
  | _ k ih =>
    cases s with
    | nil => rfl
    | cons c s =>
      by_cases hm : m.1 <+: c :: s
      · obtain ⟨r, hr⟩ := hm
        have hat : ∀ ms, markAt (m :: ms) (m.1 ++ r) = some m := fun ms =>
          List.find?_cons_of_pos (List.isPrefixOf_iff_prefix.mpr (List.prefix_append _ _))
        have hlt : r.length < k := by
          have hpos := List.length_pos_iff.mpr h.nonempty.1
          rw [← hlen, ← hr, List.length_append]
          omega
        rw [← hr, fill_mark (hat []) h.nonempty.1, fill_mark (hat marks) h.nonempty.1,
          fill_append h.begins h.nonempty.2, ih _ hlt r rfl]
      · have hskip : markAt (m :: marks) (c :: s) = markAt marks (c :: s) :=
          List.find?_cons_of_neg (mt List.isPrefixOf_iff_prefix.mp hm)
        have hsame := markAt_fill h hm
        cases hat : markAt marks (c :: s) with
        | some n =>
          obtain ⟨hn, r, hr⟩ := markAt_prefix hat
          have hlt : r.length < k := by
            have hpos := List.length_pos_iff.mpr (h.nonempty.2 n hn)
            rw [← hlen, ← hr, List.length_append]
            omega
          rw [hat] at hskip hsame
          rw [← hr] at hskip hsame hm ⊢
          rw [fill_other h hn hm] at hsame ⊢
          rw [fill_mark hsame (h.nonempty.2 n hn), fill_mark hskip (h.nonempty.2 n hn),
            ih _ hlt r rfl]
        | none =>
          have hnone : markAt [m] (c :: s) = none :=
            markAt_none_iff.mpr (List.forall_mem_singleton.mpr hm)
          have hlt : s.length < k := by
            rw [← hlen]
            exact Nat.lt_succ_self _
          rw [hat] at hskip hsame
          rw [fill_cons hnone] at hsame ⊢
          rw [fill_cons hsame, fill_cons hskip, ih _ hlt s rfl]

end Twice

end Text
