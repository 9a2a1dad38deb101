/-
  File:      Sprocket/Rtl8139/Transmit.lean
  Subject:   THE TRANSMIT DESCRIPTORS: what the driver counts, and what it owns.

  Three parties work on the four descriptors: callers reserve buffers (`transmit`) and drop them
  (`hw_transmit`), the card completes what was started, in that order and at any time, and the
  interrupt handler gives buffers back to the count. The handler looks at ONE descriptor, the next
  one to be used, and when that one is done it counts ALL FOUR as free.

  * `Good` -- the count and the reservations are covered by descriptors of the host, no drop runs
    into the assertion of `hw_transmit`, and no buffer in flight is overwritten;
  * `count_too_high` -- four frames are sent, the first one is done, an interrupt arrives: the count
    is four with three frames still in flight, and the second frame sent then panics;
  * `good_iff_quiet` -- as long as the handler refills the count only when nothing is reserved or in
    flight everything is `Good`, and a step that does otherwise ends that.
-/
import Sprocket.Lib.Trace
import Sprocket.Rtl8139.Driver

namespace Sprocket.Rtl8139

open Prog

/-! ## 1. The three parties -/

/-- The driver and the card, the number of reserved buffers that are not dropped yet, and the
    descriptors in flight with the frames they were started with, oldest first. -/
structure TxWorld where
  nic : Nic
  reserved : Nat
  inFlight : List (Nat × List UInt8)

inductive TxEvent where
  | transmit
  | drop (buf : List UInt8)
  | complete
  | interrupt

/-- A drop: when `hw_transmit` returns the card has the next descriptor. -/
def TxWorld.drop (w : TxWorld) (buf : List UInt8) : TxWorld :=
  match hwTransmit buf w.nic with
  | (.ok (), n) => ⟨n, w.reserved - 1, w.inFlight ++ [(w.nic.txOffset, buf)]⟩
  | (_, n) => { w with nic := n, reserved := w.reserved - 1 }

/-- The card is done with descriptor `d`. -/
def Nic.complete (n : Nic) (d : Nat) : Nic :=
  { n with tsd := Function.update n.tsd d (n.tsd d ||| (tok ||| own)) }

/-- **One step of one party.** Frames fit their buffers, and the card completes the oldest
    descriptor in flight. -/
inductive TxStep : TxWorld → TxEvent → TxWorld → Prop where
  | transmit (w : TxWorld) : TxStep w .transmit
      { w with nic := (transmit w.nic).2
               reserved := if (transmit w.nic).1 then w.reserved + 1 else w.reserved }
  | drop (w : TxWorld) (buf : List UInt8) (hres : 0 < w.reserved) (hlen : buf.length ≤ txBufSize) :
      TxStep w (.drop buf) (w.drop buf)
  | complete (w : TxWorld) (d : Nat) (buf : List UInt8) (rest : List (Nat × List UInt8))
      (hfirst : w.inFlight = (d, buf) :: rest) :
      TxStep w .complete { w with nic := w.nic.complete d, inFlight := rest }
  | interrupt (w : TxWorld) : TxStep w .interrupt { w with nic := interrupt w.nic }

def TxWorld.start (capr : Nat) : TxWorld := ⟨Nic.reset capr, 0, []⟩

/-- The number of descriptors the host owns. -/
def Nic.owned (n : Nic) : Nat := (List.range numTxBuffers).countP fun d => contains (n.tsd d) own

/-- **What the driver relies on.** -/
structure Good (w : TxWorld) : Prop where
  covered : w.nic.freeTxBuffers + w.reserved ≤ w.nic.owned
  asserted : 0 < w.reserved → ∀ buf : List UInt8, buf.length ≤ txBufSize →
    (hwTransmit buf w.nic).1 = .ok ()
  intact : ∀ f ∈ w.inFlight, (w.nic.txBuffer f.1).take f.2.length = f.2

/-- The interrupt handler adds to the count. -/
def Nic.Refills (n : Nic) : Prop :=
  contains (n.tsd n.txOffset) (tok ||| own) = true ∧ n.freeTxBuffers < numTxBuffers

/-- The handler refills the count only when nothing is reserved and nothing is in flight. -/
def Quiet (w : TxWorld) : TxEvent → Prop
  | .interrupt => w.nic.Refills → w.reserved = 0 ∧ w.inFlight = []
  | _ => True

/-! ## 2. What the functions do -/

theorem contains_remove (x : BitVec 32) : contains (remove x own) own = false := by
  have hand : remove x own &&& own = 0#32 := by
    unfold remove
    rw [BitVec.and_assoc]
    simp
  unfold contains
  rw [hand]
  decide

theorem contains_done (x : BitVec 32) : contains (x ||| (tok ||| own)) own = true := by
  have hand : (x ||| (tok ||| own)) &&& own = own := by
    have habs : ∀ y t m : BitVec 32, (y ||| (t ||| m)) &&& m = m := by
      intro y t m
      ext i
      simp only [BitVec.getElem_and, BitVec.getElem_or, Bool.and_eq_right_iff_imp, Bool.or_eq_true]
      exact fun h => Or.inr (Or.inr h)
    exact habs x tok own
  unfold contains
  rw [hand]
  decide

/-- The loop of the handler counts all buffers as free, or does nothing. -/
theorem interrupt_eq (n : Nic) :
    (n.Refills → interrupt n = { n with freeTxBuffers := numTxBuffers }) ∧
      (¬ n.Refills → interrupt n = n) := by
  fun_induction interrupt n with
  | case1 n h ih =>
    refine ⟨fun _ => ?_, fun hn => absurd h hn⟩
    by_cases hlast : n.freeTxBuffers + 1 < numTxBuffers
    · exact ih.1 ⟨h.1, hlast⟩
    · have hfree : n.freeTxBuffers + 1 = numTxBuffers := by omega
      rw [ih.2 fun hr => hlast hr.2, hfree]
  | case2 n h => exact ⟨fun hr => absurd hr h, fun _ => rfl⟩

/-- `hw_transmit` on a descriptor of the host. -/
def Nic.started (n : Nic) (buf : List UInt8) : Nic :=
  { n with
    txBuffer := Function.update n.txBuffer n.txOffset
      (buf ++ (n.txBuffer n.txOffset).drop buf.length)
    tsd := Function.update n.tsd n.txOffset (remove (setLength (n.tsd n.txOffset) buf.length) own)
    txOffset := nextTxOffset n.txOffset }

theorem hwTransmit_gives {n : Nic} {buf : List UInt8}
    (hown : contains (n.tsd n.txOffset) own = true)
    (hlen : buf.length ≤ txBufSize) : Gives id (hwTransmit buf) n (.ok ()) (n.started buf) := by
  unfold hwTransmit
  refine gives_get.then ((gives_require hown).then ((gives_require hlen).then ?_))
  exact (gives_modify _).then ((gives_modify _).then (gives_modify _))

theorem hwTransmit_panics {n : Nic} (buf : List UInt8)
    (hown : contains (n.tsd n.txOffset) own = false) : Gives id (hwTransmit buf) n .panic n := by
  unfold hwTransmit require
  refine gives_get.then ?_
  dsimp only
  rw [if_neg (Bool.eq_false_iff.mp hown)]
  exact gives_crash.then_panic

/-! ## 3. The descriptors in flight -/

/-- The `k` descriptors before `t`, in cyclic order. -/
def descriptorsBefore (t k : Nat) : List Nat := (List.range k).map fun j => (t + 4 - k + j) % 4

/-- Starting the next descriptor. -/
theorem descriptorsBefore_start : ∀ t < 4, ∀ k < 4,
    descriptorsBefore (nextTxOffset t) (k + 1) = descriptorsBefore t k ++ [t] := by decide

/-- Completing the oldest one. -/
theorem descriptorsBefore_done : ∀ t < 4, ∀ k < 4,
    ∃ d < 4, descriptorsBefore t (k + 1) = d :: descriptorsBefore t k ∧
      d ∉ descriptorsBefore t k := by decide

/-- The next descriptor is free while not all are in flight. -/
theorem next_not_before : ∀ t < 4, ∀ k < 4, t ∉ descriptorsBefore t k := by decide

theorem countP_not_before : ∀ t < 4, ∀ k < 5,
    (List.range 4).countP (fun d => decide (d ∉ descriptorsBefore t k)) = 4 - k := by decide

/-- **What holds as long as the handler is quiet.** The descriptors in flight are the ones before
    the next, and the host owns the others. -/
structure TxInv (w : TxWorld) : Prop where
  offset : w.nic.txOffset < 4
  cyclic : w.inFlight.map Prod.fst = descriptorsBefore w.nic.txOffset w.inFlight.length
  host : ∀ d < 4, contains (w.nic.tsd d) own = true ↔ d ∉ w.inFlight.map Prod.fst
  covered : w.nic.freeTxBuffers + w.reserved + w.inFlight.length ≤ 4
  intact : ∀ f ∈ w.inFlight, (w.nic.txBuffer f.1).take f.2.length = f.2

theorem TxInv.owned {w : TxWorld} (h : TxInv w) : w.nic.owned = 4 - w.inFlight.length := by
  have hlen := h.covered
  rw [← countP_not_before _ h.offset _ (by omega)]
  unfold Nic.owned
  refine List.countP_congr fun d hd => ?_
  rw [h.host d (List.mem_range.mp hd), h.cyclic, decide_eq_true_iff]

theorem TxInv.next_owned {w : TxWorld} (h : TxInv w) (hfree : w.inFlight.length < 4) :
    contains (w.nic.tsd w.nic.txOffset) own = true := by
  rw [h.host _ h.offset, h.cyclic]
  exact next_not_before _ h.offset _ hfree

theorem TxInv.good {w : TxWorld} (h : TxInv w) : Good w := by
  have hlen := h.covered
  refine ⟨?_, fun hres buf hbuf => ?_, h.intact⟩
  · rw [h.owned]
    omega
  · exact (hwTransmit_gives (h.next_owned (by omega)) hbuf w.nic rfl).1

/-! ## 4. One step -/

theorem start_txInv (capr : Nat) : TxInv (TxWorld.start capr) where
  offset := (by decide : 0 < 4)
  cyclic := rfl
  host _ _ := ⟨fun _ => List.not_mem_nil, fun _ => (by decide : contains own own = true)⟩
  covered := (by decide : 4 + 0 + 0 ≤ 4)
  intact := nofun

theorem drop_inv {w : TxWorld} (h : TxInv w) {buf : List UInt8} (hres : 0 < w.reserved)
    (hbuf : buf.length ≤ txBufSize) : TxInv (w.drop buf) := by
  have hlen := h.covered
  have hfree : w.inFlight.length < 4 := by omega
  have hnext := next_not_before _ h.offset _ hfree
  have hrun : hwTransmit buf w.nic = (.ok (), w.nic.started buf) :=
    Prod.ext_iff.mpr (hwTransmit_gives (h.next_owned hfree) hbuf w.nic rfl)
  have hcyclic : (w.inFlight ++ [(w.nic.txOffset, buf)]).map Prod.fst =
      w.inFlight.map Prod.fst ++ [w.nic.txOffset] := List.map_append
  unfold TxWorld.drop
  rw [hrun]
  refine ⟨Nat.mod_lt _ (by decide), ?_, fun d hd => ?_, ?_, fun f hf => ?_⟩
  · rw [hcyclic, h.cyclic, List.length_append]
    exact (descriptorsBefore_start _ h.offset _ hfree).symm
  · rw [hcyclic, List.mem_append, List.mem_singleton]
    show contains (Function.update w.nic.tsd _ _ d) own = true ↔ _
    by_cases hd' : d = w.nic.txOffset
    · rw [hd', Function.update_self, contains_remove]
      exact ⟨fun hc => absurd hc (by decide), fun hc => absurd (Or.inr rfl) hc⟩
    · rw [Function.update_of_ne hd', h.host d hd, or_iff_left hd']
  · rw [List.length_append]
    show w.nic.freeTxBuffers + (w.reserved - 1) + (w.inFlight.length + 1) ≤ 4
    omega
  · show ((Function.update w.nic.txBuffer _ _) f.1).take f.2.length = f.2
    rcases List.mem_append.mp hf with hf | hf
    · -- the buffers in flight are not the next one
      have hne : f.1 ≠ w.nic.txOffset := by
        intro e
        refine hnext ?_
        rw [← h.cyclic, ← e]
        exact List.mem_map_of_mem hf
      rw [Function.update_of_ne hne]
      exact h.intact f hf
    · obtain rfl := List.mem_singleton.mp hf
      rw [Function.update_self]
      exact List.take_left

theorem complete_inv {w : TxWorld} (h : TxInv w) {d : Nat} {buf : List UInt8}
    {rest : List (Nat × List UInt8)} (hfirst : w.inFlight = (d, buf) :: rest) :
    TxInv { w with nic := w.nic.complete d, inFlight := rest } := by
  have hlen := h.covered
  have hcyclic := h.cyclic
  rw [hfirst, List.length_cons] at hlen
  rw [hfirst, List.map_cons, List.length_cons] at hcyclic
  obtain ⟨d', _, hd', hnot⟩ := descriptorsBefore_done _ h.offset rest.length (by omega)
  rw [hd'] at hcyclic
  obtain ⟨rfl, hrest⟩ := List.cons.inj hcyclic
  refine ⟨h.offset, hrest, fun e he => ?_, ?_, fun f hf => ?_⟩
  · show contains (Function.update w.nic.tsd d (w.nic.tsd d ||| (tok ||| own)) e) own = true ↔ _
    by_cases hed : e = d
    · rw [hed, Function.update_self, contains_done, hrest]
      exact ⟨fun _ => hnot, fun _ => rfl⟩
    · rw [Function.update_of_ne hed, h.host e he, hfirst, List.map_cons, List.mem_cons,
        or_iff_right hed]
  · show w.nic.freeTxBuffers + w.reserved + rest.length ≤ 4
    omega
  · exact h.intact f (hfirst ▸ List.mem_cons_of_mem _ hf)

theorem transmit_inv {w : TxWorld} (h : TxInv w) :
    TxInv { w with nic := (transmit w.nic).2
                   reserved := if (transmit w.nic).1 then w.reserved + 1 else w.reserved } := by
  have hlen := h.covered
  unfold transmit
  by_cases hav : txAvailable w.nic = true
  · have hpos : 0 < w.nic.freeTxBuffers := of_decide_eq_true hav
    rw [if_pos hav, if_pos rfl]
    refine ⟨h.offset, h.cyclic, h.host, ?_, h.intact⟩
    show w.nic.freeTxBuffers - 1 + (w.reserved + 1) + w.inFlight.length ≤ 4
    omega
  · rw [if_neg hav]
    exact h

theorem interrupt_inv {w : TxWorld} (h : TxInv w) (hq : Quiet w .interrupt) :
    TxInv { w with nic := interrupt w.nic } := by
  by_cases hr : w.nic.Refills
  · obtain ⟨hres, hfl⟩ := hq hr
    rw [(interrupt_eq w.nic).1 hr]
    refine ⟨h.offset, h.cyclic, h.host, ?_, h.intact⟩
    show 4 + w.reserved + w.inFlight.length ≤ 4
    rw [hres, hfl]
    decide
  · rw [(interrupt_eq w.nic).2 hr]
    exact h

theorem txStep_inv {w w' : TxWorld} {e : TxEvent} (h : TxInv w) (hs : TxStep w e w')
    (hq : Quiet w e) : TxInv w' := by
  cases hs with
  | transmit => exact transmit_inv h
  | drop buf hres hlen => exact drop_inv h hres hlen
  | complete d buf rest hfirst => exact complete_inv h hfirst
  | interrupt => exact interrupt_inv h hq

/-- A refill of the count that is not quiet ends the accounting. -/
theorem refill_covered {w : TxWorld} (h : TxInv w) (hr : w.nic.Refills)
    (hg : Good { w with nic := interrupt w.nic }) : w.reserved = 0 ∧ w.inFlight = [] := by
  have hcov := hg.covered
  rw [(interrupt_eq w.nic).1 hr] at hcov
  have howned : Nic.owned { w.nic with freeTxBuffers := numTxBuffers } = 4 - w.inFlight.length :=
    h.owned
  rw [howned] at hcov
  have hcov' : 4 + w.reserved ≤ 4 - w.inFlight.length := hcov
  exact ⟨by omega, List.eq_nil_of_length_eq_zero (by omega)⟩

/-! ## 5. Runs -/

/-- A step that meets the condition. -/
def QuietStep (w : TxWorld) (e : TxEvent) (w' : TxWorld) : Prop := TxStep w e w' ∧ Quiet w e

/-- **The accounting holds exactly as long as the handler is quiet.** In every run whose steps
    meet the condition every state is good, and a further step leads to a good state if and only if
    it meets the condition as well. -/
theorem good_iff_quiet {capr : Nat} {es : List TxEvent} {w : TxWorld}
    (h : Trace QuietStep (TxWorld.start capr) es w) :
    Good w ∧ ∀ e w', TxStep w e w' → (Good w' ↔ Quiet w e) := by
  have hw : TxInv w := h.invariant (I := TxInv)
    (fun _ _ _ hs hst => txStep_inv hs hst.1 hst.2) (start_txInv capr)
  refine ⟨hw.good, fun e w' hs => ⟨fun hg => ?_, fun hq => (txStep_inv hw hs hq).good⟩⟩
  cases hs with
  | interrupt => exact fun hr => refill_covered hw hr hg
  | transmit => trivial
  | drop => trivial
  | complete => trivial

/-- A frame of the minimal size. -/
def someFrame : List UInt8 := List.replicate 60 0

/-- Reserve a buffer and drop it. -/
def TxWorld.send (w : TxWorld) : TxWorld :=
  { w with nic := (transmit w.nic).2
           reserved := if (transmit w.nic).1 then w.reserved + 1 else w.reserved }.drop someFrame

/-- A run that goes on by sending a frame. -/
theorem trace_send {w₀ w : TxWorld} {es : List TxEvent} (h : Trace QuietStep w₀ es w)
    (hres : 0 < if (transmit w.nic).1 then w.reserved + 1 else w.reserved) :
    Trace QuietStep w₀ (es ++ [.transmit] ++ [.drop someFrame]) w.send :=
  (h.snoc ⟨.transmit w, trivial⟩).snoc ⟨.drop _ someFrame hres (by decide), trivial⟩

/-- The driver and the card after reset. -/
def afterReset : TxWorld := .start 0xFFF0

/-- Three of four frames are in flight: the first one is done. -/
def firstDone : TxWorld where
  nic := afterReset.send.send.send.send.nic.complete 0
  reserved := 0
  inFlight := [(1, someFrame), (2, someFrame), (3, someFrame)]

theorem firstDone_trace : Trace QuietStep afterReset
    [.transmit, .drop someFrame, .transmit, .drop someFrame, .transmit, .drop someFrame,
      .transmit, .drop someFrame, .complete] firstDone := by
  have reset : Trace QuietStep afterReset [] afterReset := .nil
  have sent := trace_send (trace_send (trace_send (trace_send reset (by decide)) (by decide))
    (by decide)) (by decide)
  exact sent.snoc
    ⟨.complete _ 0 someFrame [(1, someFrame), (2, someFrame), (3, someFrame)] rfl, trivial⟩

/-- **The handler counts three buffers too many.** Four frames are sent and the first one is done.
    An interrupt raises the count to four, with one descriptor of the host; the second frame sent
    after it runs into the assertion of `hw_transmit`. -/
theorem count_too_high : ∃ w w',
    Trace TxStep afterReset
      [.transmit, .drop someFrame, .transmit, .drop someFrame, .transmit, .drop someFrame,
        .transmit, .drop someFrame, .complete, .interrupt] w ∧
    w.nic.freeTxBuffers = 4 ∧ w.nic.owned = 1 ∧
    Trace TxStep w [.transmit, .drop someFrame, .transmit] w' ∧ 0 < w'.reserved ∧
    (hwTransmit someFrame w'.nic).1 = .panic := by
  have hint : interrupt firstDone.nic = { firstDone.nic with freeTxBuffers := 4 } :=
    (interrupt_eq firstDone.nic).1 ⟨by decide +kernel, by decide +kernel⟩
  have hstep : ∀ w e w', QuietStep w e w' → TxStep w e w' := fun _ _ _ hs => hs.1
  have hcounted := (firstDone_trace.mono hstep).snoc (.interrupt firstDone)
  rw [hint] at hcounted
  have hagain : Trace QuietStep
      { firstDone with nic := { firstDone.nic with freeTxBuffers := 4 } } []
      { firstDone with nic := { firstDone.nic with freeTxBuffers := 4 } } := .nil
  exact ⟨_, _, hcounted, rfl, by decide +kernel,
    ((trace_send hagain (by decide +kernel)).mono hstep).snoc (.transmit _), by decide +kernel,
    (hwTransmit_panics someFrame (by decide +kernel) _ rfl).1⟩

/-- All four frames are done, and the count is still zero. -/
def allDone : TxWorld where
  nic := ((firstDone.nic.complete 1).complete 2).complete 3
  reserved := 0
  inFlight := []

theorem allDone_trace : Trace QuietStep afterReset
    [.transmit, .drop someFrame, .transmit, .drop someFrame, .transmit, .drop someFrame,
      .transmit, .drop someFrame, .complete, .complete, .complete, .complete] allDone := by
  have second := firstDone_trace.snoc
    ⟨.complete _ 1 someFrame [(2, someFrame), (3, someFrame)] rfl, trivial⟩
  have third := second.snoc ⟨.complete _ 2 someFrame [(3, someFrame)] rfl, trivial⟩
  exact third.snoc ⟨.complete _ 3 someFrame [] rfl, trivial⟩

/-- Four frames are sent and done, the interrupt refills the count, and a fifth frame is sent. -/
theorem good_iff_quiet_refilled : allDone.nic.Refills ∧ ∃ w,
    Trace QuietStep afterReset
      [.transmit, .drop someFrame, .transmit, .drop someFrame, .transmit, .drop someFrame,
        .transmit, .drop someFrame, .complete, .complete, .complete, .complete, .interrupt,
        .transmit, .drop someFrame] w ∧
    w.nic.freeTxBuffers = 3 ∧ w.inFlight = [(0, someFrame)] ∧ Good w ∧
    (Good { w with nic := interrupt w.nic } ↔ Quiet w .interrupt) := by
  have hrefills : allDone.nic.Refills := ⟨by decide +kernel, by decide +kernel⟩
  have hint : interrupt allDone.nic = { allDone.nic with freeTxBuffers := 4 } :=
    (interrupt_eq allDone.nic).1 hrefills
  have hcounted := allDone_trace.snoc ⟨.interrupt allDone, fun _ => ⟨rfl, rfl⟩⟩
  rw [hint] at hcounted
  have hsent := trace_send hcounted (by decide +kernel)
  obtain ⟨hgood, hiff⟩ := good_iff_quiet hsent
  exact ⟨hrefills, _, hsent, by decide +kernel, by decide +kernel, hgood,
    hiff .interrupt _ (.interrupt _)⟩

end Sprocket.Rtl8139
