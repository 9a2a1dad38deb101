/-
  File:      Sprocket/SimpleFs/DirectoryRuns.lean
  Subject:   WHEN IS A DIRECTORY A MAP: sequences of `dir_add` calls.

  `dirMap adds` is the map a sequence of `dir_add` calls should leave: its names in the order in
  which they were first added, each with the target of its first addition. `DirIsMap` says that the
  code behaves as that map: adding a name again fails with `EntryExists`, adding a new one
  succeeds, and afterwards every name is found in its slot and no other name is.

  * `directory_isMap_iff` -- the code behaves as the map EXACTLY when every name fits into the part
    of its slot that is stored (`NamesFit`);
  * `directory_loses_name` -- two entries suffice to break it: the second slot starts 260 bytes
    into its block and keeps 248 bytes of a name.
-/
import Mathlib.Data.List.Induction
import Sprocket.SimpleFs.Directory

namespace Sprocket.SimpleFs

open Bytes Prog

/-! ## 1. The map -/

/-- The map after one more addition. -/
def addNew (m : List Entry) (e : Entry) : List Entry :=
  if e.name ∈ m.map Entry.name then m else m ++ [e]

/-- The map after a sequence of additions. -/
def dirMap (adds : List Entry) : List Entry := adds.foldl addNew []

/-- Every name fits into the part of its slot that is stored. -/
def NamesFit (m : List Entry) : Prop := ∀ k e, m[k]? = some e → e.name.length ≤ nameRoom k

theorem dirMap_snoc (pre : List Entry) (e : Entry) :
    dirMap (pre ++ [e]) = addNew (dirMap pre) e := by
  rw [dirMap, List.foldl_append]
  rfl

theorem prefix_addNew (m : List Entry) (e : Entry) : m <+: addNew m e := by
  unfold addNew
  split
  · exact List.prefix_refl m
  · exact List.prefix_append m [e]

/-- The map only grows. -/
theorem dirMap_prefix (pre : List Entry) : ∀ post, dirMap pre <+: dirMap (pre ++ post) := by
  intro post
  induction post generalizing pre with
  | nil => exact ⟨[], by rw [List.append_nil, List.append_nil]⟩
  | cons e post ih =>
    have h := ih (pre ++ [e])
    rw [dirMap_snoc, List.append_assoc] at h
    exact (prefix_addNew _ e).trans h

theorem getElem?_of_isPrefix {m m' : List Entry} (hp : m <+: m') {k : Nat} {e : Entry}
    (h : m[k]? = some e) : m'[k]? = some e := by
  obtain ⟨t, rfl⟩ := hp
  rw [List.getElem?_append_left (List.getElem?_eq_some_iff.mp h).1, h]

/-- A name that is new makes the map longer. -/
theorem length_dirMap_lt {adds pre post : List Entry} {e : Entry} (hadds : adds = pre ++ e :: post)
    (hnew : e.name ∉ (dirMap pre).map Entry.name) :
    (dirMap pre).length < (dirMap adds).length := by
  have hp : dirMap (pre ++ [e]) <+: dirMap (pre ++ [e] ++ post) := dirMap_prefix _ _
  rw [dirMap_snoc, addNew, if_neg hnew, List.append_assoc, List.singleton_append, ← hadds] at hp
  have hle := hp.length_le
  rw [List.length_append, List.length_singleton] at hle
  omega

/-- The map holds the names that were added. -/
theorem mem_dirMap (adds : List Entry) (name : List UInt8) :
    name ∈ (dirMap adds).map Entry.name ↔ name ∈ adds.map Entry.name := by
  induction adds using List.reverseRecOn with
  | nil => rfl
  | append_singleton pre e ih =>
    rw [dirMap_snoc, addNew, List.map_append, List.mem_append, ← ih]
    split
    · rename_i hmem
      refine ⟨Or.inl, fun h => h.elim id fun h => ?_⟩
      rw [List.map_singleton, List.mem_singleton] at h
      rw [h]
      exact hmem
    · rw [List.map_append, List.mem_append]

/-- No name is in the map twice. -/
theorem dirMap_nodup (adds : List Entry) : ((dirMap adds).map Entry.name).Nodup := by
  induction adds using List.reverseRecOn with
  | nil => exact List.nodup_nil
  | append_singleton pre e ih =>
    rw [dirMap_snoc, addNew]
    split
    · exact ih
    · rename_i hnew
      rw [List.map_append, List.nodup_append]
      refine ⟨ih, by simp, fun a ha b hb => ?_⟩
      rw [List.map_singleton, List.mem_singleton] at hb
      rintro rfl
      exact hnew (hb ▸ ha)

/-- Entry `k` of the map was added when the map had `k` entries. -/
theorem dirMap_split (adds : List Entry) {k : Nat} {e : Entry} (h : (dirMap adds)[k]? = some e) :
    ∃ pre post, adds = pre ++ e :: post ∧ (dirMap pre).length = k ∧
      e.name ∉ (dirMap pre).map Entry.name := by
  induction adds using List.reverseRecOn with
  | nil => cases h
  | append_singleton pre a ih =>
    rw [dirMap_snoc, addNew] at h
    by_cases hlt : k < (dirMap pre).length
    · have hk : (dirMap pre)[k]? = some e := by
        split at h
        · exact h
        · rwa [List.getElem?_append_left hlt] at h
      obtain ⟨p, q, rfl, hp⟩ := ih hk
      exact ⟨p, q ++ [a], by simp, hp⟩
    · split at h
      · exact absurd (List.getElem?_eq_some_iff.mp h).1 hlt
      · rename_i hnew
        rw [List.getElem?_append_right (by omega)] at h
        obtain ⟨hk, he⟩ := List.getElem?_eq_some_iff.mp h
        have hk0 : k - (dirMap pre).length = 0 := by simpa using hk
        obtain rfl : a = e := by simpa [hk0] using he
        exact ⟨pre, [], rfl, by omega, hnew⟩

/-! ## 2. Looking a name up in the map -/

theorem findEntry_none {name : List UInt8} : ∀ {es : List Entry} (k : Nat),
    name ∉ es.map Entry.name → findEntry name k es = none
  | [], _, _ => rfl
  | e :: es, k, h => by
      rw [List.map_cons, List.mem_cons, not_or] at h
      rw [findEntry, if_neg fun he => h.1 he.symm]
      exact findEntry_none (k + 1) h.2

theorem findEntry_isSome {name : List UInt8} : ∀ {es : List Entry} (k : Nat),
    name ∈ es.map Entry.name → ∃ r, findEntry name k es = some r
  | e :: es, k, h => by
      rw [findEntry]
      split
      · exact ⟨_, rfl⟩
      · rename_i hne
        refine findEntry_isSome (k + 1) ((List.mem_cons.mp h).resolve_left fun he => hne he.symm)

/-- A name that is in the list once is found in its place. -/
theorem findEntry_get {es : List Entry} (hnd : (es.map Entry.name).Nodup) :
    ∀ {j : Nat} {e : Entry} (k : Nat), es[j]? = some e →
      findEntry e.name k es = some (e.target, 260 * (k + j)) := by
  induction es with
  | nil =>
    intro j e k h
    cases h
  | cons a es ih =>
    intro j e k h
    rw [List.map_cons, List.nodup_cons] at hnd
    cases j with
    | zero =>
      obtain rfl : a = e := by simpa using h
      rw [findEntry, if_pos rfl]
      rfl
    | succ j =>
      have hj : es[j]? = some e := by simpa using h
      have hne : a.name ≠ e.name := fun he =>
        hnd.1 (he ▸ List.mem_map_of_mem (List.mem_of_getElem? hj))
      rw [findEntry, if_neg hne, ih hnd.2 (k + 1) hj, Nat.add_right_comm k 1 j, Nat.add_assoc k j 1]

/-- What is found at an offset has the name asked for. -/
theorem findEntry_name {name : List UInt8} {t : UInt32} {off : Nat} :
    ∀ {es : List Entry} (k : Nat), findEntry name k es = some (t, off) →
      ∃ j e, es[j]? = some e ∧ e.name = name ∧ off = 260 * (k + j)
  | e :: es, k, h => by
      rw [findEntry] at h
      split at h
      · rename_i hn
        obtain ⟨_, rfl⟩ := Prod.mk.inj (Option.some.inj h)
        exact ⟨0, e, rfl, hn, rfl⟩
      · obtain ⟨j, e', hj, hn, hoff⟩ := findEntry_name (k + 1) h
        refine ⟨j + 1, e', by simpa using hj, hn, ?_⟩
        rw [hoff]
        omega

/-! ## 3. Runs -/

/-- The number of blocks of a directory of `n` entries. -/
def dirBlocks (n : Nat) : Nat := (260 * n + 252) / 512

section Runs

variable {T : Type} [Disk T]

/-- The disk and the directory after a sequence of additions. -/
def addAll (adds : List Entry) (s : T × Inode) : T × Inode :=
  adds.foldl (fun s e => (dirAdd e.name e.target s).2) s

/-- **The directory behaves as a map** over the sequence `adds` of `dir_add` calls. -/
structure DirIsMap [FaultFree T] (dev : UInt32) (s₀ : T × Inode) (adds : List Entry) : Prop where
  again : ∀ pre e post, adds = pre ++ e :: post → e.name ∈ pre.map Entry.name →
    (dirAdd e.name e.target (addAll pre s₀)).1 = .err .entryExists ∧
    (dirAdd e.name e.target (addAll pre s₀)).2.2 = (addAll pre s₀).2 ∧
    sectors dev (dirAdd e.name e.target (addAll pre s₀)).2.1 = sectors dev (addAll pre s₀).1
  new : ∀ pre e post, adds = pre ++ e :: post → e.name ∉ pre.map Entry.name →
    (dirAdd e.name e.target (addAll pre s₀)).1 = .ok ()
  found : ∀ k e, (dirMap adds)[k]? = some e →
    ∀ d : T, sectors dev d = sectors dev (addAll adds s₀).1 →
      (dirLookup (addAll adds s₀).2 e.name d).1 = .ok (e.target, direntSize * k)
  missing : ∀ name, name ∉ adds.map Entry.name →
    ∀ d : T, sectors dev d = sectors dev (addAll adds s₀).1 →
      (dirLookup (addAll adds s₀).2 name d).1 = .err .notFound

theorem addAll_snoc (pre : List Entry) (e : Entry) (s : T × Inode) :
    addAll (pre ++ [e]) s = (dirAdd e.name e.target (addAll pre s)).2 := by
  rw [addAll, List.foldl_append]
  rfl

variable [FaultFree T] {dev : UInt32} {s : T × Inode} {es : List Entry}

/-- The directory in memory and on the disk holds `es`, and there are blocks left for a directory
    of `n` entries. -/
def Tracks (dev : UInt32) (n : Nat) (s : T × Inode) (es : List Entry) : Prop :=
  ∃ st, DirRep dev (sectors dev s.1) s.2 st es ∧ dirBlocks n ≤ st.length + dirBlocks es.length

/-- The next slot needs a new block only where the directory grows by one. -/
theorem DirRep.toMap_le {f : Sectors} {i : Inode} {st : List UInt32} (h : DirRep dev f i st es) :
    toMap i (260 * es.length / 512) + dirBlocks es.length ≤ dirBlocks (es.length + 1) := by
  have hone := SimpleFs.toMap_le i (260 * es.length / 512)
  unfold dirBlocks
  by_cases hr : 260 ≤ 260 * es.length % 512
  · -- the slot before lies in the same block, which is mapped
    have hpos : 0 < es.length := by
      by_contra h0
      have e : es.length = 0 := by omega
      rw [e] at hr
      omega
    obtain ⟨e, he⟩ : ∃ e, es[es.length - 1]? = some e :=
      ⟨_, List.getElem?_eq_getElem (by omega)⟩
    obtain ⟨b, hb, h0⟩ := (h.slots _ e he).mapped
    have hsame : 260 * (es.length - 1) / 512 = 260 * es.length / 512 := by omega
    rw [hsame] at hb
    have hzero : toMap i (260 * es.length / 512) = 0 :=
      if_neg fun hz => h0 (Option.some.inj (hb.symm.trans hz))
    have hnext : (260 * (es.length + 1) + 252) / 512 = 260 * es.length / 512 + 1 := by omega
    have hthis : (260 * es.length + 252) / 512 = 260 * es.length / 512 + 1 := by omega
    omega
  · have hnext : (260 * (es.length + 1) + 252) / 512 = 260 * es.length / 512 + 1 := by omega
    have hthis : (260 * es.length + 252) / 512 = 260 * es.length / 512 := by omega
    omega

theorem dirBlocks_mono {n m : Nat} (h : n ≤ m) : dirBlocks n ≤ dirBlocks m := by
  unfold dirBlocks
  omega

/-- One more addition of a new name. -/
theorem Tracks.add {n : Nat} (h : Tracks dev n s es) {e : Entry} (he : e.Legal)
    (hnew : e.name ∉ es.map Entry.name) (hlt : es.length < n) (hn : 260 * n ≤ 32768) :
    (dirAdd e.name e.target s).1 = .ok () ∧
      Tracks dev n (dirAdd e.name e.target s).2 (es ++ [e.cut es.length]) := by
  obtain ⟨st, hrep, hst⟩ := h
  have hmap := hrep.toMap_le
  have hmono : dirBlocks (es.length + 1) ≤ dirBlocks n := dirBlocks_mono hlt
  obtain ⟨g, j, st', hg, hrep', _, hcost⟩ := dirAdd_append (T := T) hrep he (findEntry_none 0 hnew)
    (by omega) (by omega)
  obtain ⟨ho, hv⟩ := hg s rfl
  obtain ⟨hv1, hv2⟩ := Prod.mk.inj hv
  refine ⟨ho, st', ?_, ?_⟩
  · rw [hv1, hv2]
    exact hrep'
  · rw [List.length_append, List.length_singleton]
    omega

/-- One more addition of a name that is there. -/
theorem Tracks.again {n : Nat} (h : Tracks dev n s es) {e : Entry}
    (hold : e.name ∈ es.map Entry.name) :
    (dirAdd e.name e.target s).1 = .err .entryExists ∧ (dirAdd e.name e.target s).2.2 = s.2 ∧
      sectors dev (dirAdd e.name e.target s).2.1 = sectors dev s.1 ∧
      Tracks dev n (dirAdd e.name e.target s).2 es := by
  obtain ⟨st, hrep, hst⟩ := h
  obtain ⟨r, hr⟩ := findEntry_isSome 0 hold
  obtain ⟨ho, hv⟩ := dirAdd_exists (T := T) hrep hr s rfl
  obtain ⟨hv1, hv2⟩ := Prod.mk.inj hv
  refine ⟨ho, hv2, hv1, st, ?_, hst⟩
  rw [hv1, hv2]
  exact hrep

/-- Any addition keeps what the slots hold. -/
theorem DirRep.extends {st : List UInt32} (h : DirRep dev (sectors dev s.1) s.2 st es) {e : Entry}
    (he : e.Legal) :
    ∃ es' st', es <+: es' ∧
      DirRep dev (sectors dev (dirAdd e.name e.target s).2.1)
        (dirAdd e.name e.target s).2.2 st' es' := by
  have hstay : ∀ {o : Outcome FsError Unit}, Gives (fileView (T := T) dev) (dirAdd e.name e.target)
      (sectors dev s.1, s.2) o (sectors dev s.1, s.2) → ∃ es' st', es <+: es' ∧
      DirRep dev (sectors dev (dirAdd e.name e.target s).2.1)
        (dirAdd e.name e.target s).2.2 st' es' := by
    intro o hg
    obtain ⟨hv1, hv2⟩ := Prod.mk.inj (hg s rfl).2
    refine ⟨es, st, List.prefix_refl es, ?_⟩
    rw [hv1, hv2]
    exact h
  cases hfind : findEntry e.name 0 es with
  | some r => exact hstay (dirAdd_exists h hfind)
  | none =>
    by_cases hroom : 260 * (es.length + 1) ≤ 32768 ∧ toMap s.2 (260 * es.length / 512) ≤ st.length
    · obtain ⟨g, j, st', hg, hrep, _⟩ := dirAdd_append (T := T) h he hfind hroom.1 hroom.2
      obtain ⟨hv1, hv2⟩ := Prod.mk.inj (hg s rfl).2
      refine ⟨es ++ [e.cut es.length], st', List.prefix_append es _, ?_⟩
      rw [hv1, hv2]
      exact hrep
    · obtain ⟨err, hg⟩ := dirAdd_refused (T := T) h he hfind (by omega)
      exact hstay hg

/-- Any sequence of additions keeps what the slots hold. -/
theorem DirRep.extends_all : ∀ (adds : List Entry) {s : T × Inode} {st : List UInt32}
    {es : List Entry},
    DirRep dev (sectors dev s.1) s.2 st es → (∀ e ∈ adds, e.Legal) →
    ∃ es' st', es <+: es' ∧ DirRep dev (sectors dev (addAll adds s).1) (addAll adds s).2 st' es'
  | [], _, st, es, h, _ => ⟨es, st, List.prefix_refl es, h⟩
  | e :: adds, _, _, _, h, hlegal => by
      obtain ⟨es', st', hp, h'⟩ := h.extends (hlegal e List.mem_cons_self)
      obtain ⟨es'', st'', hp', h''⟩ := DirRep.extends_all adds h'
        fun a ha => hlegal a (List.mem_cons_of_mem e ha)
      exact ⟨es'', st'', hp.trans hp', h''⟩

theorem NamesFit.of_prefix {m m' : List Entry} (h : NamesFit m') (hp : m <+: m') : NamesFit m :=
  fun k e hk => h k e (getElem?_of_isPrefix hp hk)

theorem Entry.cut_eq {e : Entry} {k : Nat} (h : e.name.length ≤ nameRoom k) : e.cut k = e := by
  rw [Entry.cut, List.take_of_length_le h]

section FromEmpty

variable {d : T} {i : Inode} {st : List UInt32} {adds : List Entry}

/-- **While the names fit, the directory holds the map.** -/
theorem tracks_dirMap (h0 : DirRep dev (sectors dev d) i st []) (hlegal : ∀ e ∈ adds, e.Legal)
    (hroom : 260 * (dirMap adds).length ≤ 32768)
    (hfree : dirBlocks (dirMap adds).length ≤ st.length) :
    ∀ pre post, adds = pre ++ post → NamesFit (dirMap pre) →
      Tracks dev (dirMap adds).length (addAll pre (d, i)) (dirMap pre) := by
  intro pre
  induction pre using List.reverseRecOn with
  | nil => exact fun post _ _ => ⟨st, h0, Nat.le_trans hfree (Nat.le_add_right _ _)⟩
  | append_singleton pre e ih =>
    intro post hadds hfit
    rw [List.append_assoc] at hadds
    rw [dirMap_snoc] at hfit
    have htracks := ih ([e] ++ post) hadds (hfit.of_prefix (prefix_addNew _ e))
    have he : e.Legal := hlegal e (by rw [hadds]; simp)
    rw [addAll_snoc, dirMap_snoc]
    unfold addNew at hfit ⊢
    split
    · exact (htracks.again ‹_›).2.2.2
    · rename_i hnew
      rw [if_neg hnew] at hfit
      have hlt := length_dirMap_lt hadds hnew
      have hcut : e.cut (dirMap pre).length = e := by
        refine Entry.cut_eq (hfit _ e ?_)
        rw [List.getElem?_append_right (Nat.le_refl _), Nat.sub_self]
        rfl
      have hadd := (htracks.add he hnew hlt hroom).2
      rwa [hcut] at hadd

/-- Names that fit make the directory a map. -/
theorem isMap_of_namesFit (h0 : DirRep dev (sectors dev d) i st []) (hlegal : ∀ e ∈ adds, e.Legal)
    (hroom : 260 * (dirMap adds).length ≤ 32768)
    (hfree : dirBlocks (dirMap adds).length ≤ st.length) (hfit : NamesFit (dirMap adds)) :
    DirIsMap dev (d, i) adds := by
  have htracks : ∀ pre post, adds = pre ++ post →
      Tracks dev (dirMap adds).length (addAll pre (d, i)) (dirMap pre) := fun pre post hadds =>
    tracks_dirMap h0 hlegal hroom hfree pre post hadds
      (hfit.of_prefix (by rw [hadds]; exact dirMap_prefix pre post))
  obtain ⟨st', hrep, _⟩ := htracks adds [] (List.append_nil adds).symm
  refine ⟨?_, ?_, ?_, ?_⟩
  · intro pre e post hadds hold
    obtain ⟨h1, h2, h3, _⟩ := (htracks pre _ hadds).again ((mem_dirMap pre e.name).mpr hold)
    exact ⟨h1, h2, h3⟩
  · intro pre e post hadds hnew
    have hnew' : e.name ∉ (dirMap pre).map Entry.name := fun h => hnew ((mem_dirMap _ _).mp h)
    exact ((htracks pre _ hadds).add (hlegal e (by rw [hadds]; simp)) hnew'
      (length_dirMap_lt hadds hnew') hroom).1
  · intro k e hk d' hd'
    have hl := (dirLookup_gives (T := T) hrep e.name d' hd').1
    rwa [findEntry_get (dirMap_nodup adds) 0 hk, Nat.zero_add] at hl
  · intro name hname d' hd'
    have hl := (dirLookup_gives (T := T) hrep name d' hd').1
    rwa [findEntry_none 0 fun h => hname ((mem_dirMap _ _).mp h)] at hl

/-- **In a directory that is a map every name fits.** By induction on the slot: the directory holds
    the map up to the slot, so the slot was given its name cut to what it keeps; the name is found
    there, so it was not cut. -/
theorem DirIsMap.namesFit (h0 : DirRep dev (sectors dev d) i st []) (hlegal : ∀ e ∈ adds, e.Legal)
    (hroom : 260 * (dirMap adds).length ≤ 32768)
    (hfree : dirBlocks (dirMap adds).length ≤ st.length) (hmap : DirIsMap dev (d, i) adds) :
    NamesFit (dirMap adds) := by
  intro k
  induction k using Nat.strongRecOn with
  | ind k ih =>
    intro e hk
    obtain ⟨pre, post, hadds, hlen, hnew⟩ := dirMap_split adds hk
    have hp : dirMap pre <+: dirMap adds := by
      rw [hadds]
      exact dirMap_prefix pre _
    have hfit : NamesFit (dirMap pre) := fun m a ha =>
      ih m (hlen ▸ (List.getElem?_eq_some_iff.mp ha).1) a (getElem?_of_isPrefix hp ha)
    obtain ⟨_, st', hrep, _⟩ := (tracks_dirMap h0 hlegal hroom hfree pre _ hadds hfit).add
      (hlegal e (by rw [hadds]; simp)) hnew (length_dirMap_lt hadds hnew) hroom
    obtain ⟨es', st'', hext, hrep'⟩ := DirRep.extends_all post hrep
      fun a ha => hlegal a (by rw [hadds]; simp [ha])
    have hall : addAll adds (d, i) =
        addAll post (dirAdd e.name e.target (addAll pre (d, i))).2 := by
      rw [hadds, addAll, List.foldl_append]
      rfl
    rw [← hall] at hrep'
    have hkept : es'[k]? = some (e.cut k) := by
      refine getElem?_of_isPrefix hext ?_
      rw [← hlen, List.getElem?_append_right (Nat.le_refl _), Nat.sub_self]
      rfl
    have hl := (dirLookup_gives (T := T) hrep' e.name _ rfl).1
    rw [hmap.found k e hk _ rfl] at hl
    cases hfind : findEntry e.name 0 es' with
    | none =>
      rw [hfind] at hl
      cases hl
    | some r =>
      rw [hfind] at hl
      obtain rfl := Outcome.ok.inj hl
      obtain ⟨j, a, hj, hname, hoff⟩ := findEntry_name 0 hfind
      obtain rfl : j = k := by
        simp only [direntSize] at hoff
        omega
      rw [hkept] at hj
      obtain rfl := Option.some.inj hj
      rw [← hname]
      exact List.length_take_le _ _

end FromEmpty

/-- An empty directory. -/
theorem dirRep_empty {f : Sectors} {i : Inode} {st : List UInt32} (ho : Own f i st)
    (ht : i.type_ = .directory) (hdev : i.device = dev) (hsize : i.size = 0) :
    DirRep dev f i st [] where
  own := ho
  type_ := ht
  device := hdev
  size := by rw [hsize]; rfl
  room := Nat.zero_le _
  slots _ _ h := by cases h

/-- **A directory is a map exactly when every name fits its slot.** From an empty directory, on a
    disk with a well-formed freelist of enough data blocks, over every sequence of additions of
    legal entries that fit into a directory. -/
theorem directory_isMap_iff (dev : UInt32) (d : T) (i : Inode) (st : List UInt32)
    (adds : List Entry) (ho : Own (sectors dev d) i st)
    (ht : i.type_ = .directory) (hdev : i.device = dev) (hsize : i.size = 0)
    (hlegal : ∀ e ∈ adds, e.Legal)
    (hroom : (dirMap adds).length * direntSize ≤ maxFile * blockSize)
    (hfree : dirBlocks (dirMap adds).length ≤ st.length) :
    DirIsMap dev (d, i) adds ↔ NamesFit (dirMap adds) := by
  have h0 := dirRep_empty ho ht hdev hsize
  have hroom' : 260 * (dirMap adds).length ≤ 32768 := Nat.mul_comm 260 _ ▸ hroom
  exact ⟨fun h => h.namesFit h0 hlegal hroom' hfree,
    isMap_of_namesFit h0 hlegal hroom' hfree⟩

end Runs

/-- Four additions of three names: the first name comes twice, the second slot lies in two blocks,
    and its name fits the part in the first. -/
def threeNames : List Entry := [⟨[97], 5⟩, ⟨List.replicate 248 98, 6⟩, ⟨[97], 9⟩, ⟨[99], 7⟩]

theorem dirMap_threeNames :
    dirMap threeNames = [⟨[97], 5⟩, ⟨List.replicate 248 98, 6⟩, ⟨[99], 7⟩] := by decide +kernel

theorem directory_isMap_threeNames :
    DirIsMap 1 (fourBlockDisk, freshInode .directory 1) threeNames := by
  refine (directory_isMap_iff 1 fourBlockDisk (freshInode .directory 1) [260, 259, 258, 257]
    threeNames ((fourBlockDisk_wellFormed 1).own_fresh .directory 1) rfl rfl rfl ?_
    (by decide +kernel) (by decide +kernel)).mpr ?_
  · intro e he
    unfold threeNames at he
    simp only [List.mem_cons, List.not_mem_nil, or_false] at he
    rcases he with rfl | rfl | rfl | rfl <;>
      exact ⟨by decide +kernel, by decide +kernel, by decide⟩
  · intro k e hk
    rw [dirMap_threeNames] at hk
    rcases k with _ | _ | _ | k
    iterate 3
      · obtain rfl := Option.some.inj hk
        decide +kernel
    · cases hk

/-! ## 4. A name that is lost -/

/-- A name of the largest legal length. -/
def longName : List UInt8 := List.replicate dirnameSize 98

theorem length_longName : longName.length = 254 := List.length_replicate

/-- A short name, and then the long one. -/
def shortThenLong : List Entry := [⟨[97], 5⟩, ⟨longName, 6⟩]

theorem shortThenLong_legal : ∀ e ∈ shortThenLong, e.Legal := by
  intro e he
  rcases List.mem_cons.mp he with rfl | he
  · exact ⟨by decide, by decide, by decide⟩
  · rw [List.mem_singleton.mp he]
    refine ⟨Nat.le_of_eq length_longName, fun h0 => ?_, by decide⟩
    exact absurd (List.eq_of_mem_replicate h0) (by decide)

theorem longName_ne_short : longName ≠ [97] := fun h => by
  have hlen := congrArg List.length h
  rw [length_longName] at hlen
  exact absurd hlen (by decide)

theorem dirMap_shortThenLong : dirMap shortThenLong = shortThenLong := by
  have hnew : longName ∉ (dirMap [⟨[97], 5⟩]).map Entry.name := fun h =>
    longName_ne_short (List.mem_singleton.mp h)
  have hstep : dirMap shortThenLong = addNew (dirMap [⟨[97], 5⟩]) ⟨longName, 6⟩ :=
    dirMap_snoc [⟨[97], 5⟩] ⟨longName, 6⟩
  rw [hstep, addNew, if_neg hnew]
  rfl

/-- What the second slot keeps is not the name. -/
theorem findEntry_longName :
    findEntry longName 0 ([⟨[97], 5⟩] ++ [(⟨longName, 6⟩ : Entry).cut 1]) = none := by
  refine findEntry_none 0 fun h => ?_
  rcases List.mem_cons.mp h with h | h
  · exact longName_ne_short h
  · have hlen := congrArg List.length (List.mem_singleton.mp h)
    have hle : ((⟨longName, 6⟩ : Entry).cut 1).name.length ≤ 248 := List.length_take_le _ _
    rw [length_longName] at hlen
    omega

/-- In every empty directory with room for them, both entries are added and the second is not
    found. -/
theorem Tracks.shortThenLong {T : Type} [Disk T] [FaultFree T] {dev : UInt32} {s : T × Inode}
    (h0 : Tracks dev 2 s []) :
    (dirAdd [97] 5 s).1 = .ok () ∧ (dirAdd longName 6 (addAll [⟨[97], 5⟩] s)).1 = .ok () ∧
    (dirLookup (addAll shortThenLong s).2 longName (addAll shortThenLong s).1).1 =
      .err .notFound := by
  obtain ⟨hok, h1⟩ := h0.add (shortThenLong_legal ⟨[97], 5⟩ List.mem_cons_self) List.not_mem_nil
    (by decide) (by decide)
  obtain ⟨hok', st, hrep, _⟩ := h1.add
    (shortThenLong_legal ⟨longName, 6⟩ (List.mem_cons_of_mem _ List.mem_cons_self))
    (fun h => longName_ne_short (List.mem_singleton.mp h)) (by decide) (by decide)
  refine ⟨hok, hok', ?_⟩
  exact (dirLookup_gives hrep longName _ rfl).1.trans (congrArg lookupOutcome findEntry_longName)

/-- **Two additions break the map**: both entries are legal and the directory and the disk have
    room for them, both calls return `Ok`, and then the second name is not found, because slot 1
    keeps 248 of its 254 bytes. -/
theorem directory_loses_name :
    WellFormed (sectors 1 oneBlockDisk) [257] ∧ (∀ e ∈ shortThenLong, e.Legal) ∧
    (dirMap shortThenLong).length * direntSize ≤ maxFile * blockSize ∧
    dirBlocks (dirMap shortThenLong).length ≤ [(257 : UInt32)].length ∧
    (dirAdd [97] 5 (oneBlockDisk, freshInode .directory 1)).1 = .ok () ∧
    (dirAdd longName 6 (addAll [⟨[97], 5⟩] (oneBlockDisk, freshInode .directory 1))).1 = .ok () ∧
    (dirLookup (addAll shortThenLong (oneBlockDisk, freshInode .directory 1)).2 longName
      (addAll shortThenLong (oneBlockDisk, freshInode .directory 1)).1).1 = .err .notFound ∧
    ¬ DirIsMap 1 (oneBlockDisk, freshInode .directory 1) shortThenLong := by
  have h0 : Tracks 1 2 (oneBlockDisk, freshInode .directory 1) [] :=
    ⟨[257], dirRep_empty ((oneBlockDisk_wellFormed 1).own_fresh .directory 1) rfl rfl rfl,
      by decide⟩
  obtain ⟨hok, hok', hlost⟩ := h0.shortThenLong
  refine ⟨oneBlockDisk_wellFormed 1, shortThenLong_legal, ?_, ?_, hok, hok', hlost, fun h => ?_⟩
  · rw [dirMap_shortThenLong]
    decide
  · rw [dirMap_shortThenLong]
    decide
  · have hfound := h.found 1 ⟨longName, 6⟩ (by rw [dirMap_shortThenLong]; rfl)
      (addAll shortThenLong (oneBlockDisk, freshInode .directory 1)).1 rfl
    exact absurd (hfound.symm.trans hlost) nofun

end Sprocket.SimpleFs
