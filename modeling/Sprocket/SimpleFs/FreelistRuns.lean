/-
  File:      Sprocket/SimpleFs/FreelistRuns.lean
  Subject:   WHOLE RUNS OF `alloc_block` AND `free_block` REFINE A STACK MACHINE.

  Freelist.lean proves what one call does to the stack a disk holds. Here the calls are put in
  sequence, with anything at all happening in between to blocks that are neither the superblock
  nor on the freelist (the files that own them are written):

  * `FreelistStep` -- one call, or such a change, on a disk;
  * `StackStep` -- the same on a plain stack of block numbers: push, pop, nothing;
  * `freelist_refines_stack` -- every run from an empty freelist is a run of the stack machine
    with the same results, and says what every further call changes.
-/
import Sprocket.Lib.Trace
import Sprocket.SimpleFs.Freelist

namespace Sprocket.SimpleFs

open Bytes Prog

/-! ## 1. A disk holds one freelist -/

theorem run_unique : ∀ {es es' : List UInt32} {m n : Nat}, (∀ e ∈ es, e ≠ 0) → (∀ e ∈ es', e ≠ 0) →
    es ++ List.replicate m 0 = es' ++ List.replicate n 0 → es = es'
  | [], [], _, _, _, _, _ => rfl
  | [], e :: es', m, n, _, h', h => by
      cases m with
      | zero => simp at h
      | succ m =>
        rw [List.nil_append, List.replicate_succ, List.cons_append] at h
        exact absurd (List.cons.inj h).1.symm (h' e List.mem_cons_self)
  | e :: es, [], m, n, h', _, h => by
      cases n with
      | zero => simp at h
      | succ n =>
        rw [List.nil_append, List.replicate_succ, List.cons_append] at h
        exact absurd (List.cons.inj h).1 (h' e List.mem_cons_self)
  | e :: es, e' :: es', m, n, h1, h2, h => by
      rw [List.cons_append, List.cons_append] at h
      obtain ⟨rfl, ht⟩ := List.cons.inj h
      rw [run_unique (fun x hx => h1 x (List.mem_cons_of_mem _ hx))
        (fun x hx => h2 x (List.mem_cons_of_mem _ hx)) ht]

theorem chain_unique {f : Sectors} : ∀ {h : UInt32} {c c' : List Link}, Chain f h c → Chain f h c' →
    (∀ b ∈ stackOf c, b ≠ 0) → (∀ b ∈ stackOf c', b ≠ 0) → stackOf c = stackOf c'
  | _, [], [], _, _, _, _ => rfl
  | _, [], l :: _, e, ⟨e', _⟩, _, hz => by
      refine absurd ?_ (hz l.addr (addr_mem_stackOf List.mem_cons_self))
      rw [← e']
      exact e
  | _, l :: _, [], ⟨e', _⟩, e, hz, _ => by
      refine absurd ?_ (hz l.addr (addr_mem_stackOf List.mem_cons_self))
      rw [← e']
      exact e
  | _, l :: c, l' :: c', ⟨e, next, ⟨_, hw⟩, hc⟩, ⟨e', next', ⟨_, hw'⟩, hc'⟩, hz, hz' => by
      have haddr : l'.addr = l.addr := e'.symm.trans e
      rw [haddr, hw] at hw'
      obtain ⟨hnext, hents⟩ := List.cons.inj hw'
      subst hnext
      have hmem : ∀ x : Link, ∀ r : List Link, ∀ b ∈ x.entries, b ∈ stackOf (x :: r) := by
        intro x r b hb
        rw [stackOf_cons]
        simp [hb]
      have hent : l.entries = l'.entries :=
        run_unique (fun b hb => hz b (hmem l c b hb)) (fun b hb => hz' b (hmem l' c' b hb)) hents
      have htail : ∀ x : Link, ∀ r : List Link, ∀ b ∈ stackOf r, b ∈ stackOf (x :: r) := by
        intro x r b hb
        rw [stackOf_cons]
        simp [hb]
      rw [stackOf_cons, stackOf_cons, hent, haddr, chain_unique hc hc'
        (fun b hb => hz b (htail l c b hb)) (fun b hb => hz' b (htail l' c' b hb))]

theorem Freelist.unique {f : Sectors} {st st' : List UInt32} (h : Freelist f st)
    (h' : Freelist f st') : st = st' := by
  obtain ⟨c, hc, rfl⟩ := h
  obtain ⟨c', hc', rfl⟩ := h'
  exact chain_unique hc.linked hc'.linked hc.nonzero hc'.nonzero

/-! ## 2. The two machines -/

/-- A call of the freelist with its result, or a change made behind its back. -/
inductive FreelistEvent where
  | alloc (result : Outcome FsError UInt32)
  | free (b : UInt32) (result : Outcome FsError Unit)
  | scribble

section Runs

variable {T : Type} [Disk T] [FaultFree T]

/-- One step on a disk. A freed block is not the superblock and not on the freelist; a change
    made behind the freelist's back spares the superblock and the blocks on the freelist. -/
inductive FreelistStep (dev : UInt32) : T → FreelistEvent → T → Prop where
  | alloc (d : T) : FreelistStep dev d (.alloc (allocBlock dev d).1) (allocBlock dev d).2
  | free (d : T) (b : UInt32) (st : List UInt32) (hst : Freelist (sectors dev d) st) (hb : b ≠ 0)
      (hnew : b ∉ st) : FreelistStep dev d (.free b (freeBlock dev b d).1) (freeBlock dev b d).2
  | scribble (d d' : T) (st : List UInt32) (hst : Freelist (sectors dev d) st)
      (hsame : ∀ s, s = 0 ∨ s ∈ st → sectors dev d' s = sectors dev d s) :
      FreelistStep dev d .scribble d'

/-- One step of the stack machine. -/
inductive StackStep : List UInt32 → FreelistEvent → List UInt32 → Prop where
  | exhausted : StackStep [] (.alloc (.err .exhaustedBlocks)) []
  | pop (b : UInt32) (st : List UInt32) : StackStep (b :: st) (.alloc (.ok b)) st
  | push (b : UInt32) (st : List UInt32) : StackStep st (.free b (.ok ())) (b :: st)
  | scribble (st : List UInt32) : StackStep st .scribble st

/-- What a step may do to the sectors, with `st` the blocks on the freelist before it. -/
def StepEffect (st : List UInt32) (f g : Sectors) : FreelistEvent → Prop
  | .alloc (.ok b) => g b = Sector.zero ∧ ∀ s, s ≠ 0 → s ∉ st → g s = f s
  | .alloc _ => g = f
  | .free b _ => ∀ s, s ≠ 0 → s ≠ b → s ∉ st → g s = f s
  | .scribble => ∀ s, s = 0 ∨ s ∈ st → g s = f s

/-- One step on the disk is one step of the stack. -/
theorem freelistStep_stackStep {dev : UInt32} {d d' : T} {st : List UInt32} {e : FreelistEvent}
    (hd : Freelist (sectors dev d) st) (h : FreelistStep dev d e d') :
    ∃ st', StackStep st e st' ∧ Freelist (sectors dev d') st' ∧
      StepEffect st (sectors dev d) (sectors dev d') e := by
  cases h with
  | alloc =>
    cases st with
    | nil =>
      obtain ⟨ho, hf⟩ := allocBlock_empty (T := T) dev hd d rfl
      rw [ho]
      refine ⟨[], .exhausted, ?_, hf⟩
      rw [hf]
      exact hd
    | cons b st =>
      obtain ⟨g, hg, hst, hz, hfr⟩ := allocBlock_pop (T := T) dev hd
      obtain ⟨ho, hf⟩ := hg d rfl
      rw [ho]
      refine ⟨st, .pop b st, ?_, ?_⟩
      · rw [hf]
        exact hst
      · rw [hf]
        exact ⟨hz, hfr.others⟩
  | free b st' hst' hb hnew =>
    rw [hst'.unique hd] at hnew
    obtain ⟨g, hg, hst, hfr⟩ := freeBlock_push (T := T) dev hd hb hnew
    obtain ⟨ho, hf⟩ := hg d rfl
    rw [ho]
    refine ⟨b :: st, .push b st, ?_, ?_⟩
    · rw [hf]
      exact hst
    · rw [hf]
      intro s h0 hs hm
      refine hfr.others s h0 ?_
      rw [List.mem_cons, not_or]
      exact ⟨hs, hm⟩
  | scribble _ st' hst' hsame =>
    rw [hst'.unique hd] at hsame
    refine ⟨st, .scribble st, hd.congr ?_ fun b hb => hsame b (Or.inr hb), hsame⟩
    rw [freelistHead, hsame 0 (Or.inl rfl), freelistHead]

/-- `alloc_block` reports exhaustion exactly on the empty stack. -/
theorem allocBlock_exhausted_iff {dev : UInt32} {d : T} {st : List UInt32}
    (hd : Freelist (sectors dev d) st) :
    (allocBlock dev d).1 = .err .exhaustedBlocks ↔ st = [] := by
  constructor
  · intro h
    cases st with
    | nil => rfl
    | cons b st =>
      obtain ⟨g, hg, _⟩ := allocBlock_pop (T := T) dev hd
      rw [(hg d rfl).1] at h
      cases h
  · rintro rfl
    exact (allocBlock_empty (T := T) dev hd d rfl).1

/-- **The on-disk freelist is a LIFO stack.** Every run of the freelist's calls from an empty
    freelist gives the results of the stack machine; the disk then holds the machine's stack,
    each block once, allocation is exhausted exactly when that stack is empty, and every further
    step is a step of the stack machine that changes nothing but what it is about. -/
theorem freelist_refines_stack (dev : UInt32) {d₀ d : T} {es : List FreelistEvent}
    (h0 : freelistHead (sectors dev d₀) = unusedBlockaddr)
    (hrun : Trace (FreelistStep dev) d₀ es d) :
    ∃ st, Trace StackStep [] es st ∧ Freelist (sectors dev d) st ∧ st.Nodup ∧
      ((allocBlock dev d).1 = .err .exhaustedBlocks ↔ st = []) ∧
      ∀ e d', FreelistStep dev d e d' → ∃ st', StackStep st e st' ∧
        Freelist (sectors dev d') st' ∧ StepEffect st (sectors dev d) (sectors dev d') e := by
  have hsim : ∃ st, Trace StackStep [] es st ∧ Freelist (sectors dev d) st :=
    Trace.simulate (R := fun (d : T) st => Freelist (sectors dev d) st)
      (fun d st e d' hd hs => by
        obtain ⟨st', h1, h2, _⟩ := freelistStep_stackStep hd hs
        exact ⟨st', h1, h2⟩)
      (freelist_nil_iff.mpr h0) hrun
  obtain ⟨st, hst, hd⟩ := hsim
  exact ⟨st, hst, hd, hd.nodup, allocBlock_exhausted_iff hd,
    fun e d' hs => freelistStep_stackStep hd hs⟩

end Runs

/-- A disk of zeros: an empty freelist. -/
def zeroDisk : MemDisk := ⟨fun _ _ => Sector.zero⟩

theorem freelistHead_zeroDisk (dev : UInt32) : freelistHead (sectors dev zeroDisk) = 0 :=
  u32At_replicate_zero (by decide)

/-- Freeing block 300 of the zero disk and allocating again. -/
theorem freelist_refines_stack_zeroDisk :
    ∃ st, Trace StackStep []
        [.free 300 (freeBlock 1 300 zeroDisk).1,
          .alloc (allocBlock 1 (freeBlock 1 300 zeroDisk).2).1]
        st ∧
      Freelist (sectors 1 (allocBlock 1 (freeBlock 1 300 zeroDisk).2).2) st := by
  have hfree := FreelistStep.free zeroDisk 300 [] (freelist_nil_iff.mpr (freelistHead_zeroDisk 1))
    (by decide) List.not_mem_nil
  have hrun := (Trace.single hfree).snoc (FreelistStep.alloc _)
  obtain ⟨st, hst, hd, _⟩ := freelist_refines_stack 1 (freelistHead_zeroDisk 1) hrun
  exact ⟨st, hst, hd⟩

end Sprocket.SimpleFs
