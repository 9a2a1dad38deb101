/-
  File:      Sprocket/SimpleFs/Freelist.lean
  Subject:   THE FREELIST IS A STACK: `alloc_block` pops, `free_block` pushes.

  The superblock points to a chain of link blocks. Word 0 of a link block is the address of the
  next one, words 1..127 are a run of addresses of free blocks followed by zeros; the link block
  itself is free as well. Read from the last entry of the first link block to its first entry,
  then the link block itself, then the next link block, the chain is a STACK of block numbers
  (`stackOf`). `Freelist f st` says that the sectors `f` hold the stack `st`, every block on it
  once and none of them block 0.

  * `allocBlock_empty`, `allocBlock_pop` -- on the empty stack `alloc_block` fails and changes
    nothing; otherwise it returns the top, zeroed, and leaves the rest of the stack;
  * `freeBlock_push` -- `free_block` pushes a block that is not on the stack;
  * each changes the superblock's head pointer, blocks of the stack and the block it is about,
    and nothing else.
-/
import Sprocket.SimpleFs.FaultFree

namespace Sprocket.SimpleFs

open Bytes Prog

/-! ## 1. Searching a run of entries -/

theorem rposition_zeros (n : Nat) :
    rposition (· != unusedBlockaddr) (List.replicate n 0) = none := by
  rw [rposition, List.reverse_replicate, List.findIdx?_replicate]
  simp

theorem findIdx?_zeros_append (n : Nat) (e : UInt32) (l : List UInt32) (h : e ≠ 0) :
    (List.replicate n 0 ++ e :: l).findIdx? (· != (0 : UInt32)) = some n := by
  induction n with
  | zero => simp [List.findIdx?_cons, h]
  | succ n ih =>
    rw [List.replicate_succ, List.cons_append, List.findIdx?_cons, ih]
    simp

/-- The last used entry of a run followed by zeros. -/
theorem rposition_run (es : List UInt32) (e : UInt32) (n : Nat) (h : e ≠ 0) :
    rposition (· != unusedBlockaddr) (es ++ [e] ++ List.replicate n 0) = some es.length := by
  have hrev : (es ++ [e] ++ List.replicate n 0).reverse =
      List.replicate n 0 ++ e :: es.reverse := by
    simp
  rw [rposition, hrev, findIdx?_zeros_append n e _ h]
  simp

/-- The first free entry after a run of used ones. -/
theorem findIdx?_run (es l : List UInt32) (h : ∀ e ∈ es, e ≠ 0) :
    (es ++ 0 :: l).findIdx? (· == unusedBlockaddr) = some es.length := by
  induction es with
  | nil => simp [List.findIdx?_cons]
  | cons e es ih =>
    have he : (e == unusedBlockaddr) = false := by simpa using h e List.mem_cons_self
    rw [List.cons_append, List.findIdx?_cons, ih fun x hx => h x (List.mem_cons_of_mem e hx), he]
    simp

theorem findIdx?_full (es : List UInt32) (h : ∀ e ∈ es, e ≠ 0) :
    es.findIdx? (· == unusedBlockaddr) = none := by
  rw [List.findIdx?_eq_none_iff]
  intro e he
  simpa using h e he

/-! ## 2. The chain of link blocks and the stack it stands for -/

/-- A link block of the freelist: its address and its entries, the oldest first. -/
structure Link where
  addr : UInt32
  entries : List UInt32

/-- The free blocks a link block stands for, the most recently freed first. -/
def Link.stack (l : Link) : List UInt32 := l.entries.reverse ++ [l.addr]

/-- The stack a chain stands for. -/
def stackOf (chain : List Link) : List UInt32 := chain.flatMap Link.stack

/-- The block of a link holds the address `next`, then the entries in a row, then zeros. -/
def IsLink (f : Sectors) (l : Link) (next : UInt32) : Prop :=
  l.entries.length ≤ 127 ∧
    words (f l.addr).val = next :: (l.entries ++ List.replicate (127 - l.entries.length) 0)

/-- The chain of link blocks that starts at an address. -/
def Chain (f : Sectors) : UInt32 → List Link → Prop
  | h, [] => h = 0
  | h, l :: rest => h = l.addr ∧ ∃ next, IsLink f l next ∧ Chain f next rest

/-- The address the superblock gives as the head of the freelist. -/
def freelistHead (f : Sectors) : UInt32 := (bufferToSb (f 0).val).freelistStart

/-- The sectors hold `chain`: linked from the superblock, no block twice, block 0 not on it. -/
structure FreelistRep (f : Sectors) (chain : List Link) : Prop where
  linked : Chain f (freelistHead f) chain
  nonzero : ∀ b ∈ stackOf chain, b ≠ 0
  nodup : (stackOf chain).Nodup

/-- **The sectors hold the stack `st` as their freelist.** -/
def Freelist (f : Sectors) (st : List UInt32) : Prop :=
  ∃ chain, FreelistRep f chain ∧ stackOf chain = st

theorem Freelist.nodup {f : Sectors} {st : List UInt32} (h : Freelist f st) : st.Nodup := by
  obtain ⟨chain, hr, rfl⟩ := h
  exact hr.nodup

/-- The blocks that stay free when the head of the stack is taken. -/
theorem Freelist.mem_rest {f : Sectors} {b : UInt32} {rest : List UInt32}
    (h : Freelist f (b :: rest)) (a : UInt32) : a ∈ rest ↔ a ∈ b :: rest ∧ a ≠ b := by
  have hb : b ∉ rest := (List.nodup_cons.mp h.nodup).1
  constructor
  · intro ha
    refine ⟨List.mem_cons_of_mem b ha, fun e => ?_⟩
    subst e
    exact hb ha
  · intro ⟨ha, hne⟩
    exact (List.mem_cons.mp ha).resolve_left hne

theorem Freelist.nonzero {f : Sectors} {st : List UInt32} (h : Freelist f st) :
    ∀ b ∈ st, b ≠ 0 := by
  obtain ⟨chain, hr, rfl⟩ := h
  exact hr.nonzero

theorem stackOf_cons (l : Link) (rest : List Link) :
    stackOf (l :: rest) = l.entries.reverse ++ l.addr :: stackOf rest := by
  simp [stackOf, Link.stack]

theorem addr_mem_stackOf {chain : List Link} {l : Link} (h : l ∈ chain) : l.addr ∈ stackOf chain :=
  List.mem_flatMap.mpr ⟨l, h, by simp [Link.stack]⟩

/-- A chain reads its link blocks only. -/
theorem chain_congr {f g : Sectors} : ∀ {h : UInt32} {chain : List Link},
    Chain f h chain → (∀ l ∈ chain, g l.addr = f l.addr) → Chain g h chain
  | _, [], hc, _ => hc
  | _, l :: rest, ⟨e, next, ⟨hlen, hw⟩, hrest⟩, hg => by
      refine ⟨e, next, ⟨hlen, ?_⟩, chain_congr hrest fun x hx => hg x (List.mem_cons_of_mem l hx)⟩
      rw [hg l List.mem_cons_self]
      exact hw

theorem FreelistRep.congr {f g : Sectors} {chain : List Link} (hr : FreelistRep f chain)
    (h0 : freelistHead g = freelistHead f) (hst : ∀ b ∈ stackOf chain, g b = f b) :
    FreelistRep g chain := by
  refine ⟨?_, hr.nonzero, hr.nodup⟩
  rw [h0]
  exact chain_congr hr.linked fun l hl => hst _ (addr_mem_stackOf hl)

/-- The freelist reads the superblock and the blocks on the stack only. -/
theorem Freelist.congr {f g : Sectors} {st : List UInt32} (h : Freelist f st)
    (h0 : freelistHead g = freelistHead f) (hst : ∀ b ∈ st, g b = f b) : Freelist g st := by
  obtain ⟨chain, hr, rfl⟩ := h
  exact ⟨chain, hr.congr h0 hst, rfl⟩

section Rep

variable {f g : Sectors} {l : Link} {rest chain chain' : List Link} {b : UInt32}

theorem FreelistRep.addr_ne_zero (hr : FreelistRep f (l :: rest)) : l.addr ≠ 0 :=
  hr.nonzero _ (addr_mem_stackOf List.mem_cons_self)

theorem FreelistRep.entries_ne_zero (hr : FreelistRep f (l :: rest)) : ∀ e ∈ l.entries, e ≠ 0 :=
  fun e he => hr.nonzero e (by rw [stackOf_cons]; simp [he])

/-- The head link block is no later link block of the chain. -/
theorem FreelistRep.addr_ne_head (hr : FreelistRep f (l :: rest)) :
    ∀ x ∈ rest, x.addr ≠ l.addr := by
  intro x hx h
  have hnd := hr.nodup
  rw [stackOf_cons] at hnd
  have hhead := (List.nodup_append.mp hnd).2.1
  rw [List.nodup_cons] at hhead
  exact hhead.1 (h ▸ addr_mem_stackOf hx)

/-- A chain whose stack is the popped one is a freelist once it is linked. -/
theorem FreelistRep.pop (hr : FreelistRep f chain) (hst : stackOf chain = b :: stackOf chain')
    (hlinked : Chain g (freelistHead g) chain') : FreelistRep g chain' := by
  refine ⟨hlinked, fun x hx => hr.nonzero x ?_, ?_⟩
  · rw [hst]
    exact List.mem_cons_of_mem b hx
  · have hnd := hr.nodup
    rw [hst, List.nodup_cons] at hnd
    exact hnd.2

/-- A chain whose stack has a new block on top is a freelist once it is linked. -/
theorem FreelistRep.push (hr : FreelistRep f chain) (hb : b ≠ 0) (hnew : b ∉ stackOf chain)
    (hst : stackOf chain' = b :: stackOf chain) (hlinked : Chain g (freelistHead g) chain') :
    FreelistRep g chain' := by
  refine ⟨hlinked, fun x hx => ?_, ?_⟩
  · rw [hst] at hx
    rcases List.mem_cons.mp hx with rfl | hx
    · exact hb
    · exact hr.nonzero x hx
  · rw [hst, List.nodup_cons]
    exact ⟨hnew, hr.nodup⟩

end Rep

theorem freelist_nil_iff {f : Sectors} : Freelist f [] ↔ freelistHead f = 0 := by
  constructor
  · rintro ⟨chain, hr, hs⟩
    cases chain with
    | nil => exact hr.linked
    | cons l rest => rw [stackOf_cons] at hs; simp at hs
  · intro h
    exact ⟨[], ⟨h, by simp [stackOf], by simp [stackOf]⟩, rfl⟩

/-! ## 3. What an operation leaves alone -/

/-- The operation changed at most the superblock's head pointer and the blocks in `touched`. -/
structure FreelistFrame (f g : Sectors) (touched : List UInt32) : Prop where
  superblock : ∃ addr, bufferToSb (g 0).val = { bufferToSb (f 0).val with freelistStart := addr }
  others : ∀ s, s ≠ 0 → s ∉ touched → g s = f s

theorem FreelistFrame.of_superblock_eq {f g : Sectors} {touched : List UInt32} (h0 : g 0 = f 0)
    (h : ∀ s, s ∉ touched → g s = f s) : FreelistFrame f g touched :=
  ⟨⟨(bufferToSb (f 0).val).freelistStart, by rw [h0]⟩, fun s _ hs => h s hs⟩

/-- The sector a `setFreelistStart` writes to the superblock. -/
def sbWith (f : Sectors) (addr : UInt32) : Sector :=
  ⟨setFreelistStart (f 0).val addr, length_setFreelistStart addr (f 0).property⟩

theorem bufferToSb_sbWith (f : Sectors) (addr : UInt32) :
    bufferToSb (sbWith f addr).val = { bufferToSb (f 0).val with freelistStart := addr } :=
  bufferToSb_setFreelistStart addr (f 0).property

/-! ## 4. The single writes -/

theorem setWord_length_512 {b : List UInt8} {i : Nat} (v : UInt32) (hb : b.length = 512)
    (hi : i < 128) : (setWord b i v).length = 512 := by
  rw [length_setWord v (by omega), hb]

/-- Clearing the last entry of a link block removes it. -/
theorem words_dropEntry {buf : List UInt8} {next e : UInt32} {es : List UInt32}
    (hbuf : buf.length = 512) (hlen : es.length + 1 ≤ 127)
    (hw : words buf = next :: (es ++ [e] ++ List.replicate (127 - (es.length + 1)) 0)) :
    words (setWord buf (es.length + 1) 0) = next :: (es ++ List.replicate (127 - es.length) 0) := by
  have hz : 127 - es.length = 127 - (es.length + 1) + 1 := by omega
  rw [words_setWord _ (by rw [hbuf]; omega), hw, hz, List.replicate_succ, List.append_assoc]
  simp

/-- Writing the first free entry of a link block appends to its entries. -/
theorem words_addEntry {buf : List UInt8} {next b : UInt32} {es : List UInt32}
    (hbuf : buf.length = 512) (hroom : es.length < 127)
    (hw : words buf = next :: (es ++ 0 :: List.replicate (127 - (es.length + 1)) 0)) :
    words (setWord buf (es.length + 1) b) =
      next :: ((es ++ [b]) ++ List.replicate (127 - (es ++ [b]).length) 0) := by
  rw [words_setWord _ (by rw [hbuf]; omega), hw]
  simp

section Writes

variable {f : Sectors} {l : Link} {rest chain : List Link} {b e : UInt32} {es : List UInt32}

/-- A zeroed block that the superblock points to is a freelist of its own. -/
theorem freelistRep_single (hb : b ≠ 0) (hhead : freelistHead f = b) (hz : f b = Sector.zero) :
    FreelistRep f [⟨b, []⟩] := by
  have hst : stackOf [⟨b, []⟩] = [b] := rfl
  refine ⟨⟨hhead, 0, ⟨Nat.zero_le _, ?_⟩, rfl⟩, ?_, ?_⟩
  · dsimp only
    rw [hz]
    exact words_replicate_zero 512
  · intro x hx
    rw [hst, List.mem_singleton] at hx
    rw [hx]
    exact hb
  · simp [hst]

theorem freelistHead_update (x : Sector) (hb : b ≠ 0) :
    freelistHead (Function.update f b x) = freelistHead f := by
  rw [freelistHead, Function.update_of_ne hb.symm, freelistHead]

theorem freelistHead_sbWith (f : Sectors) (addr : UInt32) :
    freelistHead (Function.update f 0 (sbWith f addr)) = addr := by
  rw [freelistHead, Function.update_self, bufferToSb_sbWith]

/-- A write to a block off the freelist. -/
theorem FreelistRep.elsewhere (hr : FreelistRep f chain) (x : Sector) (hb : b ≠ 0)
    (hoff : b ∉ stackOf chain) : FreelistRep (Function.update f b x) chain := by
  refine hr.congr (freelistHead_update x hb) fun c hc => Function.update_of_ne ?_ _ _
  intro h
  exact hoff (h ▸ hc)

theorem stackOf_dropEntry (rest : List Link) (hes : l.entries = es ++ [e]) :
    stackOf (l :: rest) = e :: stackOf ({ l with entries := es } :: rest) := by
  rw [stackOf_cons, stackOf_cons, hes]
  simp

/-- What `alloc_block` finds in a link block whose last entry is `e`. -/
structure LastEntry (f : Sectors) (l : Link) (es : List UInt32) (e : UInt32) : Prop where
  nonzero : e ≠ 0
  found : rposition (· != unusedBlockaddr) ((words (f l.addr).val).drop 1) = some es.length
  word : (words (f l.addr).val)[es.length + 1]? = some e
  length : (setWord (f l.addr).val (es.length + 1) 0).length = 512

theorem FreelistRep.lastEntry (hr : FreelistRep f (l :: rest)) (hes : l.entries = es ++ [e]) :
    LastEntry f l es e := by
  obtain ⟨_, next, ⟨hlen, hw⟩, _⟩ := hr.linked
  have he0 : e ≠ 0 := hr.entries_ne_zero e (by rw [hes]; simp)
  have hlen' : es.length + 1 ≤ 127 := by rw [hes] at hlen; simpa using hlen
  have hents : (words (f l.addr).val).drop 1 =
      es ++ [e] ++ List.replicate (127 - l.entries.length) 0 := by
    rw [hw, hes, List.drop_one, List.tail_cons]
  refine ⟨he0, ?_, ?_, setWord_length_512 _ (f l.addr).property (by omega)⟩
  · rw [hents, rposition_run es e _ he0]
  · rw [hw, hes]
    simp

/-- The last entry is off the freelist once it is dropped. -/
theorem FreelistRep.lastEntry_fresh (hr : FreelistRep f (l :: rest))
    (hes : l.entries = es ++ [e]) : e ∉ stackOf ({ l with entries := es } :: rest) := by
  have hnd := hr.nodup
  rw [stackOf_dropEntry rest hes, List.nodup_cons] at hnd
  exact hnd.1

/-- A link block without entries: the search finds nothing, and word 0 is the next block. -/
theorem FreelistRep.noEntry (hr : FreelistRep f (l :: rest)) (hes : l.entries = []) :
    rposition (· != unusedBlockaddr) ((words (f l.addr).val).drop 1) = none ∧
      ∃ next, (words (f l.addr).val)[0]? = some next ∧ Chain f next rest := by
  obtain ⟨_, next, ⟨_, hw⟩, hrest⟩ := hr.linked
  rw [hes] at hw
  refine ⟨?_, next, ?_, hrest⟩
  · rw [hw, List.drop_one, List.tail_cons, List.nil_append, rposition_zeros]
  · rw [hw]
    rfl

/-- What `free_block` finds in a link block with room: the entry after the used ones. -/
theorem FreelistRep.firstRoom (hr : FreelistRep f (l :: rest)) (hroom : l.entries.length < 127) :
    ((words (f l.addr).val).drop 1).findIdx? (· == unusedBlockaddr) = some l.entries.length := by
  obtain ⟨_, next, ⟨_, hw⟩, _⟩ := hr.linked
  have hz : 127 - l.entries.length = 127 - (l.entries.length + 1) + 1 := by omega
  rw [hw, hz, List.replicate_succ, List.drop_one, List.tail_cons,
    findIdx?_run _ _ hr.entries_ne_zero]

/-- A full link block has no entry left. -/
theorem FreelistRep.noRoom (hr : FreelistRep f (l :: rest)) (hfull : 127 ≤ l.entries.length) :
    ((words (f l.addr).val).drop 1).findIdx? (· == unusedBlockaddr) = none := by
  obtain ⟨_, next, ⟨_, hw⟩, _⟩ := hr.linked
  rw [hw, Nat.sub_eq_zero_of_le hfull, List.drop_one, List.tail_cons, List.replicate_zero,
    List.append_nil, findIdx?_full _ hr.entries_ne_zero]

/-- Writing the head link block without its last entry. -/
theorem FreelistRep.dropEntry (hr : FreelistRep f (l :: rest)) (hes : l.entries = es ++ [e])
    {x : Sector} (hx : x.val = setWord (f l.addr).val (es.length + 1) 0) :
    FreelistRep (Function.update f l.addr x) ({ l with entries := es } :: rest) := by
  obtain ⟨hl, next, ⟨hlen, hw⟩, hrest⟩ := hr.linked
  have hlen' : es.length + 1 ≤ 127 := by rw [hes] at hlen; simpa using hlen
  have hwl : words (f l.addr).val =
      next :: (es ++ [e] ++ List.replicate (127 - (es.length + 1)) 0) := by
    rw [hw, hes]
    simp
  refine hr.pop (stackOf_dropEntry rest hes)
    ⟨?_, next, ⟨Nat.le_of_succ_le hlen', ?_⟩, chain_congr hrest ?_⟩
  · rw [freelistHead_update x hr.addr_ne_zero]
    exact hl
  · dsimp only
    rw [Function.update_self, hx]
    exact words_dropEntry (f l.addr).property hlen' hwl
  · intro y hy
    rw [Function.update_of_ne (hr.addr_ne_head y hy)]

/-- Writing the head link block with one more entry. -/
theorem FreelistRep.addEntry (hr : FreelistRep f (l :: rest)) (hroom : l.entries.length < 127)
    (hb : b ≠ 0) (hnew : b ∉ stackOf (l :: rest)) {x : Sector}
    (hx : x.val = setWord (f l.addr).val (l.entries.length + 1) b) :
    FreelistRep (Function.update f l.addr x) ({ l with entries := l.entries ++ [b] } :: rest) := by
  obtain ⟨hl, next, ⟨_, hw⟩, hrest⟩ := hr.linked
  have hz : 127 - l.entries.length = 127 - (l.entries.length + 1) + 1 := by omega
  have hwl : words (f l.addr).val =
      next :: (l.entries ++ 0 :: List.replicate (127 - (l.entries.length + 1)) 0) := by
    rw [hw, hz, List.replicate_succ]
  have hst : stackOf ({ l with entries := l.entries ++ [b] } :: rest) =
      b :: stackOf (l :: rest) := by
    simp [stackOf_cons]
  refine hr.push hb hnew hst ⟨?_, next, ⟨?_, ?_⟩, chain_congr hrest ?_⟩
  · rw [freelistHead_update x hr.addr_ne_zero]
    exact hl
  · show (l.entries ++ [b]).length ≤ 127
    rw [List.length_append]
    exact hroom
  · dsimp only
    rw [Function.update_self, hx]
    exact words_addEntry (f l.addr).property hroom hwl
  · intro y hy
    rw [Function.update_of_ne (hr.addr_ne_head y hy)]

/-- Zeroing an empty head link block and pointing the superblock behind it. -/
theorem FreelistRep.dropLink (hr : FreelistRep f (l :: rest)) (hes : l.entries = [])
    {next : UInt32} (hrest : Chain f next rest) (x : Sector) :
    FreelistRep (Function.update (Function.update f l.addr x) 0 (sbWith f next)) rest := by
  have hst : stackOf (l :: rest) = l.addr :: stackOf rest := by
    rw [stackOf_cons, hes]
    simp
  have hhead : freelistHead (Function.update (Function.update f l.addr x) 0 (sbWith f next)) =
      next := by
    rw [freelistHead, Function.update_self, bufferToSb_sbWith]
  refine hr.pop hst ?_
  rw [hhead]
  refine chain_congr hrest fun y hy => ?_
  have hy0 : y.addr ≠ 0 := hr.nonzero _ (addr_mem_stackOf (List.mem_cons_of_mem l hy))
  rw [Function.update_of_ne hy0, Function.update_of_ne (hr.addr_ne_head y hy)]

/-- Pointing the superblock to a new link block whose next block is the old head. -/
theorem FreelistRep.addLink (hr : FreelistRep f (l :: rest)) (hb : b ≠ 0)
    (hnew : b ∉ stackOf (l :: rest)) {x : Sector} (hx : x.val = setWord zeroBlock 0 l.addr) :
    FreelistRep (Function.update (Function.update f 0 (sbWith f b)) b x)
      (⟨b, []⟩ :: l :: rest) := by
  have hl : freelistHead f = l.addr := hr.linked.1
  have hst : stackOf (⟨b, []⟩ :: l :: rest) = b :: stackOf (l :: rest) := by
    rw [stackOf_cons]
    rfl
  refine hr.push hb hnew hst ⟨?_, l.addr, ⟨Nat.zero_le _, ?_⟩, ?_⟩
  · rw [freelistHead_update x hb, freelistHead_sbWith]
  · dsimp only
    rw [Function.update_self, hx,
      words_setWord _ (by rw [zeroBlock, List.length_replicate]; decide), zeroBlock,
      words_replicate_zero]
    rfl
  · -- the old chain is linked from the new head
    have hc : Chain f l.addr (l :: rest) := hl ▸ hr.linked
    refine chain_congr hc fun y hy => ?_
    have hym := addr_mem_stackOf hy
    have hyb : y.addr ≠ b := fun h => hnew (h ▸ hym)
    rw [Function.update_of_ne hyb, Function.update_of_ne (hr.nonzero _ hym)]

end Writes

/-! ## 5. `alloc_block` -/

section Alloc

variable {T : Type} [Disk T] [FaultFree T] (dev : UInt32) {f : Sectors}

/-- **On the empty freelist `alloc_block` fails and changes nothing.** -/
theorem allocBlock_empty (h : Freelist f []) :
    Gives (sectors (T := T) dev) (allocBlock dev) f (.err .exhaustedBlocks) f := by
  have h0 : (bufferToSb (f 0).val).freelistStart = 0 := freelist_nil_iff.mp h
  unfold allocBlock
  refine diskRead_zero.then ?_
  rw [if_pos h0]
  exact gives_fail _

/-- The head link block has an entry: its last one is allocated. -/
theorem allocBlock_entry {l : Link} {rest : List Link} {es : List UInt32} {e : UInt32}
    (hr : FreelistRep f (l :: rest)) (hes : l.entries = es ++ [e]) :
    ∃ g, Gives (sectors (T := T) dev) (allocBlock dev) f (.ok e) g ∧
      FreelistRep g ({ l with entries := es } :: rest) ∧ g e = Sector.zero ∧
      FreelistFrame f g [e, l.addr] := by
  have hlast := hr.lastEntry hes
  have hl0 : l.addr ≠ 0 := hr.addr_ne_zero
  have hdrop := hr.dropEntry hes (x := ⟨_, hlast.length⟩) rfl
  refine ⟨Function.update (Function.update f l.addr ⟨_, hlast.length⟩) e Sector.zero, ?_,
    hdrop.elsewhere Sector.zero hlast.nonzero (hr.lastEntry_fresh hes), ?_, ?_⟩
  · have hl : (bufferToSb (f 0).val).freelistStart = l.addr := hr.linked.1
    unfold allocBlock
    refine diskRead_zero.then ?_
    rw [hl, if_neg hl0]
    refine (diskRead_block (f 0).property).then ?_
    rw [hlast.found]
    refine Gives.then (w := f) (a := e) ?_ ?_
    · rw [wordAt, hlast.word]
      exact gives_pure e
    · exact (diskWrite_block hlast.length).then (diskWrite_zero.then (gives_pure e))
  · rw [Function.update_self]
  · refine FreelistFrame.of_superblock_eq ?_ fun s hs => ?_
    · rw [Function.update_of_ne hlast.nonzero.symm, Function.update_of_ne hl0.symm]
    · rw [List.mem_cons, List.mem_singleton, not_or] at hs
      rw [Function.update_of_ne hs.1, Function.update_of_ne hs.2]

/-- The head link block has no entry: it is itself allocated. -/
theorem allocBlock_link {l : Link} {rest : List Link}
    (hr : FreelistRep f (l :: rest)) (hes : l.entries = []) :
    ∃ g, Gives (sectors (T := T) dev) (allocBlock dev) f (.ok l.addr) g ∧
      FreelistRep g rest ∧ g l.addr = Sector.zero ∧ FreelistFrame f g [l.addr] := by
  obtain ⟨hnone, next, hnext, hrest⟩ := hr.noEntry hes
  have hl0 : l.addr ≠ 0 := hr.addr_ne_zero
  refine ⟨Function.update (Function.update f l.addr Sector.zero) 0 (sbWith f next), ?_,
    hr.dropLink hes hrest Sector.zero, ?_, ?_⟩
  · have hl : (bufferToSb (f 0).val).freelistStart = l.addr := hr.linked.1
    unfold allocBlock
    refine diskRead_zero.then ?_
    rw [hl, if_neg hl0]
    refine (diskRead_block (f 0).property).then ?_
    rw [hnone]
    refine Gives.then (w := f) (a := next) ?_ ?_
    · rw [wordAt, hnext]
      exact gives_pure next
    · refine diskRead_zero.then (diskWrite_zero.then ?_)
      exact (diskWrite_block (length_setFreelistStart next (f 0).property)).then (gives_pure _)
  · rw [Function.update_of_ne hl0, Function.update_self]
  · refine ⟨⟨next, ?_⟩, ?_⟩
    · rw [Function.update_self, bufferToSb_sbWith]
    · intro s hs0 hs
      rw [List.mem_singleton] at hs
      rw [Function.update_of_ne hs0, Function.update_of_ne hs]

/-- **`alloc_block` pops the stack**: it returns the most recently freed block, zeroed, and
    touches no block that is not on the freelist. -/
theorem allocBlock_pop {b : UInt32} {st : List UInt32} (h : Freelist f (b :: st)) :
    ∃ g, Gives (sectors (T := T) dev) (allocBlock dev) f (.ok b) g ∧ Freelist g st ∧
      g b = Sector.zero ∧ FreelistFrame f g (b :: st) := by
  obtain ⟨chain, hr, hst⟩ := h
  cases chain with
  | nil => cases hst
  | cons l rest =>
    rw [stackOf_cons] at hst
    rcases List.eq_nil_or_concat' l.entries with hes | ⟨es, e, hes⟩
    · rw [hes] at hst
      obtain ⟨rfl, rfl⟩ := List.cons.inj hst
      obtain ⟨g, hg, hrep, hz, hfr⟩ := allocBlock_link (T := T) dev hr hes
      exact ⟨g, hg, ⟨rest, hrep, rfl⟩, hz, hfr.superblock, fun s h0 hs =>
        hfr.others s h0 fun hm => hs (by rw [List.mem_singleton.mp hm]; exact List.mem_cons_self)⟩
    · rw [hes, List.reverse_append] at hst
      obtain ⟨rfl, rfl⟩ := List.cons.inj hst
      obtain ⟨g, hg, hrep, hz, hfr⟩ := allocBlock_entry (T := T) dev hr hes
      refine ⟨g, hg, ⟨_, hrep, stackOf_cons _ _⟩, hz, hfr.superblock, fun s h0 hs => ?_⟩
      refine hfr.others s h0 fun hm => hs ?_
      rcases List.mem_cons.mp hm with rfl | hm
      · exact List.mem_cons_self
      · rw [List.mem_singleton.mp hm]
        simp

end Alloc

/-! ## 6. `free_block` -/

section Free

variable {T : Type} [Disk T] [FaultFree T] (dev : UInt32) {f : Sectors} {b : UInt32}

/-- The first block on an empty freelist. -/
theorem freeBlock_first (hf : freelistHead f = 0) (hb : b ≠ 0) :
    ∃ g, Gives (sectors (T := T) dev) (freeBlock dev b) f (.ok ()) g ∧
      FreelistRep g [⟨b, []⟩] ∧ FreelistFrame f g [b] := by
  refine ⟨Function.update (Function.update f 0 (sbWith f b)) b Sector.zero, ?_,
    freelistRep_single hb ?_ (Function.update_self _ _ _), ?_⟩
  · have h0 : (bufferToSb (f 0).val).freelistStart = unusedBlockaddr := hf
    unfold freeBlock
    refine diskRead_zero.then ?_
    rw [if_pos h0]
    refine (diskWrite_block (length_setFreelistStart b (f 0).property)).then ?_
    exact diskWrite_zero.then (gives_pure ())
  · rw [freelistHead_update _ hb, freelistHead_sbWith]
  · refine ⟨⟨b, ?_⟩, ?_⟩
    · rw [Function.update_of_ne hb.symm, Function.update_self, bufferToSb_sbWith]
    · intro s hs0 hs
      rw [List.mem_singleton] at hs
      rw [Function.update_of_ne hs, Function.update_of_ne hs0]

/-- The head link block has room: the freed block becomes its last entry. -/
theorem freeBlock_entry {l : Link} {rest : List Link} (hr : FreelistRep f (l :: rest))
    (hroom : l.entries.length < 127) (hb : b ≠ 0) (hnew : b ∉ stackOf (l :: rest)) :
    ∃ g, Gives (sectors (T := T) dev) (freeBlock dev b) f (.ok ()) g ∧
      FreelistRep g ({ l with entries := l.entries ++ [b] } :: rest) ∧
      FreelistFrame f g [l.addr] := by
  have hl0 : l.addr ≠ 0 := hr.addr_ne_zero
  have hset : (setWord (f l.addr).val (l.entries.length + 1) b).length = 512 :=
    setWord_length_512 _ (f l.addr).property (by omega)
  refine ⟨Function.update f l.addr ⟨_, hset⟩, ?_, hr.addEntry hroom hb hnew rfl, ?_⟩
  · have hl : (bufferToSb (f 0).val).freelistStart = l.addr := hr.linked.1
    unfold freeBlock
    refine diskRead_zero.then ?_
    rw [hl, if_neg hl0]
    refine diskRead_zero.then ?_
    rw [hr.firstRoom hroom]
    exact (diskWrite_block hset).then (gives_pure ())
  · refine FreelistFrame.of_superblock_eq ?_ fun s hs => ?_
    · rw [Function.update_of_ne hl0.symm]
    · rw [List.mem_singleton] at hs
      rw [Function.update_of_ne hs]

/-- The head link block is full: the freed block becomes the new head. -/
theorem freeBlock_link {l : Link} {rest : List Link} (hr : FreelistRep f (l :: rest))
    (hfull : l.entries.length = 127) (hb : b ≠ 0) (hnew : b ∉ stackOf (l :: rest)) :
    ∃ g, Gives (sectors (T := T) dev) (freeBlock dev b) f (.ok ()) g ∧
      FreelistRep g (⟨b, []⟩ :: l :: rest) ∧ FreelistFrame f g [b] := by
  have hl0 : l.addr ≠ 0 := hr.addr_ne_zero
  have hset : (setWord zeroBlock 0 l.addr).length = 512 :=
    setWord_length_512 _ List.length_replicate (by omega)
  refine ⟨Function.update (Function.update f 0 (sbWith f b)) b ⟨_, hset⟩, ?_,
    hr.addLink hb hnew rfl, ?_⟩
  · have hl : (bufferToSb (f 0).val).freelistStart = l.addr := hr.linked.1
    unfold freeBlock
    refine diskRead_zero.then ?_
    rw [hl, if_neg hl0]
    refine diskRead_zero.then ?_
    rw [hr.noRoom (Nat.le_of_eq hfull.symm)]
    refine (diskWrite_block (length_setFreelistStart b (f 0).property)).then ?_
    exact (diskWrite_block hset).then (gives_pure ())
  · refine ⟨⟨b, ?_⟩, ?_⟩
    · rw [Function.update_of_ne hb.symm, Function.update_self, bufferToSb_sbWith]
    · intro s hs0 hs
      rw [List.mem_singleton] at hs
      rw [Function.update_of_ne hs, Function.update_of_ne hs0]

/-- **`free_block` pushes**: a block that is neither the superblock nor on the freelist becomes
    the top of the stack. -/
theorem freeBlock_push {st : List UInt32} (h : Freelist f st) (hb : b ≠ 0) (hnew : b ∉ st) :
    ∃ g, Gives (sectors (T := T) dev) (freeBlock dev b) f (.ok ()) g ∧ Freelist g (b :: st) ∧
      FreelistFrame f g (b :: st) := by
  obtain ⟨chain, hr, rfl⟩ := h
  cases chain with
  | nil =>
    obtain ⟨g, hg, hrep, hfr⟩ := freeBlock_first (T := T) dev hr.linked hb
    exact ⟨g, hg, ⟨_, hrep, rfl⟩, hfr⟩
  | cons l rest =>
    obtain ⟨_, next, ⟨hlen, _⟩, _⟩ := hr.linked
    rcases Nat.lt_or_ge l.entries.length 127 with hroom | hfull
    · obtain ⟨g, hg, hrep, hfr⟩ := freeBlock_entry (T := T) dev hr hroom hb hnew
      refine ⟨g, hg, ⟨_, hrep, by simp [stackOf_cons]⟩, hfr.superblock, fun s h0 hs => ?_⟩
      refine hfr.others s h0 fun hm => hs (List.mem_cons_of_mem b ?_)
      rw [List.mem_singleton.mp hm]
      exact addr_mem_stackOf List.mem_cons_self
    · obtain ⟨g, hg, hrep, hfr⟩ :=
        freeBlock_link (T := T) dev hr (by omega) hb hnew
      refine ⟨g, hg, ⟨_, hrep, by rw [stackOf_cons]; rfl⟩, hfr.superblock, fun s h0 hs => ?_⟩
      exact hfr.others s h0 fun hm =>
        hs (by rw [List.mem_singleton.mp hm]; exact List.mem_cons_self)

end Free

end Sprocket.SimpleFs
