/-
  File:      Sprocket/Rtl8139/Receive.lean
  Subject:   THE RECEIVE RING: the driver and the card agree on where the next frame is.

  The card stores a frame as a header and its bytes, in one piece, and goes on behind it at a
  multiple of four, modulo the size of the ring. The driver keeps its own offset, which it moves by
  the length in the header, and tells the card through `CAPR`, sixteen bytes less and not wrapped.

  * `RxStep` -- the card stores a frame, not over one that is not consumed yet; the driver consumes
    the oldest one (`update_capr`);
  * `updateCapr_gives` -- one call, from what the header says;
  * `receive_in_step` -- in every run the driver's offset is the offset of the oldest frame and the
    card's read pointer, and `update_capr` never panics;
  * `receive_returns_iff` -- `receive` returns the oldest frame, except if it is longer than 1516
    bytes and starts at the last offset of the ring: the buffer is two bytes too short for it.
-/
import Sprocket.Lib.Trace
import Sprocket.Rtl8139.Driver

namespace Sprocket.Rtl8139

open Prog

/-! ## 1. The card -/

/-- A frame the card accepts, with the status word of its header. The length includes the CRC. -/
structure Frame where
  status : BitVec 16
  data : List UInt8
  /-- `RX_OK`. -/
  ok : status &&& 1#16 = 1#16
  min : 64 ≤ data.length
  max : data.length ≤ 1518

/-- The header, and the bytes of the frame. -/
def Frame.bytes (f : Frame) : List UInt8 :=
  [UInt8.ofNat f.status.toNat, UInt8.ofNat (f.status.toNat / 256),
    UInt8.ofNat f.data.length, UInt8.ofNat (f.data.length / 256)] ++ f.data

/-- The card writes `bs` to memory, from index `w` on. -/
def dma (m : Nat → UInt8) (w : Nat) (bs : List UInt8) (i : Nat) : UInt8 :=
  if w ≤ i ∧ i < w + bs.length then bs.getD (i - w) 0 else m i

/-- Where the card goes on after a frame of length `len` at `w`. -/
def nextOffset (w len : Nat) : Nat := (w + len + 4 + 3) / 4 * 4 % 8192

/-- The driver and the card: where it will store the next frame, and the frames that are not
    consumed yet with their offsets, oldest first. -/
structure RxWorld where
  nic : Nic
  cardOffset : Nat
  pending : List (Nat × Frame)

inductive RxEvent where
  | store (f : Frame)
  | consume

/-- **One step.** The card stores a frame where no unconsumed one is; the driver drops the buffer
    of the oldest frame. -/
inductive RxStep : RxWorld → RxEvent → RxWorld → Prop where
  | store (w : RxWorld) (f : Frame)
      (hroom : ∀ p ∈ w.pending, w.cardOffset + f.bytes.length ≤ p.1 ∨
        p.1 + p.2.bytes.length ≤ w.cardOffset) :
      RxStep w (.store f)
        { nic := { w.nic with rxBuffer := dma w.nic.rxBuffer w.cardOffset f.bytes }
          cardOffset := nextOffset w.cardOffset f.data.length
          pending := w.pending ++ [(w.cardOffset, f)] }
  | consume (w : RxWorld) (p : Nat × Frame) (rest : List (Nat × Frame))
      (hfirst : w.pending = p :: rest) :
      RxStep w .consume { w with nic := (updateCapr w.nic).2, pending := rest }

def RxWorld.start (capr : Nat) : RxWorld := ⟨Nic.reset capr, 0, []⟩

/-- The card's offset of the oldest unconsumed frame: where the next one goes if there is none. -/
def RxWorld.oldest (w : RxWorld) : Nat :=
  match w.pending with
  | [] => w.cardOffset
  | p :: _ => p.1

/-- The card's read pointer. -/
def Nic.readPointer (n : Nic) : Nat := (n.capr + 16) % 8192

/-! ## 2. Frames in memory -/

/-- Memory holds the frame at its offset. -/
def Holds (m : Nat → UInt8) (p : Nat × Frame) : Prop :=
  ∀ i < p.2.bytes.length, m (p.1 + i) = p.2.bytes.getD i 0

theorem dma_holds (m : Nat → UInt8) (w : Nat) (f : Frame) : Holds (dma m w f.bytes) (w, f) := by
  intro i hi
  show dma m w f.bytes (w + i) = _
  have hin : w ≤ w + i ∧ w + i < w + f.bytes.length :=
    ⟨Nat.le_add_right w i, Nat.add_lt_add_left hi w⟩
  rw [dma, if_pos hin, Nat.add_sub_cancel_left]

/-- A frame elsewhere is not touched. -/
theorem Holds.dma {m : Nat → UInt8} {p : Nat × Frame} (h : Holds m p) {w : Nat} {bs : List UInt8}
    (hroom : w + bs.length ≤ p.1 ∨ p.1 + p.2.bytes.length ≤ w) : Holds (dma m w bs) p := by
  intro i hi
  have hout : ¬ (w ≤ p.1 + i ∧ p.1 + i < w + bs.length) := by omega
  rw [Rtl8139.dma, if_neg hout]
  exact h i hi

theorem Frame.length_bytes (f : Frame) : f.bytes.length = 4 + f.data.length := by
  rw [Frame.bytes, List.length_append]
  rfl

theorem length_of_bytes {n : Nat} (h : n < 65536) :
    ((UInt8.ofNat (n / 256)).toNat <<< 8) ||| (UInt8.ofNat n).toNat = n := by
  rw [UInt8.toNat_ofNat', UInt8.toNat_ofNat', Nat.shiftLeft_eq, Nat.mul_comm,
    ← Nat.two_pow_add_eq_or_of_lt (Nat.mod_lt _ (by decide))]
  omega

/-! ## 3. `update_capr` -/

/-- The driver after a frame of length `len`. -/
def Nic.advanced (n : Nic) (len : Nat) : Nic :=
  { n with capr := (n.rxOffset + len + 4 + 3) / 4 * 4 - 16, rxOffset := nextOffset n.rxOffset len }

/-- The bytes of the header. -/
theorem rxByte_gives {n : Nic} {f : Frame} (hoff : n.rxOffset < 8192)
    (h : Holds n.rxBuffer (n.rxOffset, f)) {i : Nat} (hi : i < 4) :
    Gives id (rxByte (n.rxOffset + i)) n (.ok (f.bytes.getD i 0)) n := by
  have hlen := f.length_bytes
  have hval : n.rxBuffer (n.rxOffset + i) = f.bytes.getD i 0 := h i (by dsimp only; omega)
  have hin : n.rxOffset + i < bufSize := by
    simp only [bufSize]
    omega
  rw [← hval]
  exact (gives_require hin).then (gives_get.then (gives_pure _))

theorem getRxLen_gives {n : Nic} {f : Frame} (hoff : n.rxOffset < 8192)
    (h : Holds n.rxBuffer (n.rxOffset, f)) : Gives id getRxLen n (.ok f.data.length) n := by
  have hmax := f.max
  unfold getRxLen
  refine gives_get.then ((rxByte_gives hoff h (by decide)).then ?_)
  refine (rxByte_gives hoff h (by decide)).then ?_
  have hval : ((f.bytes.getD 3 0).toNat <<< 8) ||| (f.bytes.getD 2 0).toNat = f.data.length :=
    length_of_bytes (by omega)
  rw [hval]
  exact gives_pure _

/-- **One call of `update_capr`**: none of its checks fails. -/
theorem updateCapr_gives {n : Nic} {f : Frame} (hal : n.rxOffset % 4 = 0) (hoff : n.rxOffset < 8192)
    (h : Holds n.rxBuffer (n.rxOffset, f)) :
    Gives id updateCapr n (.ok ()) (n.advanced f.data.length) := by
  have hmin := f.min
  have hmax := f.max
  unfold updateCapr
  refine gives_get.then ((getRxLen_gives hoff h).then ?_)
  refine (gives_checkedAdd (by omega)).then ((gives_checkedAdd (by omega)).then ?_)
  refine (gives_checkedAdd (by omega)).then ((gives_modify _).then (gives_get.then ?_))
  have hlow : 16 ≤ (n.rxOffset + f.data.length + 4 + 3) / 4 * 4 := by omega
  have hhigh : (n.rxOffset + f.data.length + 4 + 3) / 4 * 4 - 16 < bufSize := by
    simp only [bufSize]
    omega
  have hword : ((n.rxOffset + f.data.length + 4 + 3) / 4 * 4 - 16) % 2 ^ 16 =
      (n.rxOffset + f.data.length + 4 + 3) / 4 * 4 - 16 := by omega
  refine (gives_checkedSub hlow).then ?_
  refine Gives.then ((gives_require hhigh).then (gives_modify _)) (gives_get.then ?_)
  dsimp only
  rw [hword]
  by_cases hwrap : baseBufSize ≤ (n.rxOffset + f.data.length + 4 + 3) / 4 * 4
  · rw [if_pos hwrap]
    exact gives_modify _
  · have hsame : nextOffset n.rxOffset f.data.length =
        (n.rxOffset + f.data.length + 4 + 3) / 4 * 4 := Nat.mod_eq_of_lt (Nat.not_le.mp hwrap)
    rw [if_neg hwrap]
    refine (gives_pure ()).ends ⟨rfl, ?_⟩
    rw [Nic.advanced, hsame]

/-! ## 4. Runs -/

/-- The frames `ps` lie one behind the other, from `o` up to `w`. -/
def InOrder : Nat → List (Nat × Frame) → Nat → Prop
  | o, [], w => o = w
  | o, p :: ps, w => p.1 = o ∧ InOrder (nextOffset o p.2.data.length) ps w

theorem InOrder.snoc (f : Frame) : ∀ {o : Nat} {ps : List (Nat × Frame)} {w : Nat}, InOrder o ps w →
    InOrder o (ps ++ [(w, f)]) (nextOffset w f.data.length)
  | o, [], w, h => by
      obtain rfl : o = w := h
      exact ⟨rfl, rfl⟩
  | _, _ :: _, _, ⟨h, hps⟩ => ⟨h, hps.snoc f⟩

/-- **What holds in every run.** -/
structure RxInv (w : RxWorld) : Prop where
  aligned : w.nic.rxOffset % 4 = 0
  below : w.nic.rxOffset < 8192
  inOrder : InOrder w.nic.rxOffset w.pending w.cardOffset
  holds : ∀ p ∈ w.pending, Holds w.nic.rxBuffer p
  pointer : w.nic.readPointer = w.nic.rxOffset

theorem start_rxInv {capr : Nat} (hcapr : (capr + 16) % 8192 = 0) : RxInv (RxWorld.start capr) where
  aligned := rfl
  below := (by decide : 0 < 8192)
  inOrder := rfl
  holds := nofun
  pointer := hcapr

/-- The driver is at the oldest frame. -/
theorem RxInv.holds_first {w : RxWorld} (h : RxInv w) {p : Nat × Frame} {rest : List (Nat × Frame)}
    (hfirst : w.pending = p :: rest) :
    p.1 = w.nic.rxOffset ∧ Holds w.nic.rxBuffer (w.nic.rxOffset, p.2) := by
  have horder := h.inOrder
  rw [hfirst] at horder
  have hholds : Holds w.nic.rxBuffer p := h.holds p (hfirst ▸ List.mem_cons_self)
  rcases p with ⟨o, f⟩
  obtain rfl : o = w.nic.rxOffset := horder.1
  exact ⟨rfl, hholds⟩

theorem RxInv.first {w : RxWorld} (h : RxInv w) {p : Nat × Frame} {rest : List (Nat × Frame)}
    (hfirst : w.pending = p :: rest) :
    p.1 = w.nic.rxOffset ∧
      Gives id updateCapr w.nic (.ok ()) (w.nic.advanced p.2.data.length) := by
  obtain ⟨hp, hholds⟩ := h.holds_first hfirst
  exact ⟨hp, updateCapr_gives h.aligned h.below hholds⟩

theorem store_inv {w : RxWorld} (h : RxInv w) (f : Frame)
    (hroom : ∀ p ∈ w.pending, w.cardOffset + f.bytes.length ≤ p.1 ∨
      p.1 + p.2.bytes.length ≤ w.cardOffset) :
    RxInv { nic := { w.nic with rxBuffer := dma w.nic.rxBuffer w.cardOffset f.bytes }
            cardOffset := nextOffset w.cardOffset f.data.length
            pending := w.pending ++ [(w.cardOffset, f)] } := by
  refine ⟨h.aligned, h.below, h.inOrder.snoc f, fun p hp => ?_, h.pointer⟩
  rcases List.mem_append.mp hp with hp | hp
  · exact (h.holds p hp).dma (hroom p hp)
  · rw [List.mem_singleton.mp hp]
    exact dma_holds _ _ f

theorem consume_inv {w : RxWorld} (h : RxInv w) {p : Nat × Frame} {rest : List (Nat × Frame)}
    (hfirst : w.pending = p :: rest) :
    RxInv { w with nic := (updateCapr w.nic).2, pending := rest } := by
  obtain ⟨hp, hg⟩ := h.first hfirst
  have hnic : (updateCapr w.nic).2 = w.nic.advanced p.2.data.length := (hg w.nic rfl).2
  have hmin := p.2.min
  have horder := h.inOrder
  rw [hfirst] at horder
  rw [hnic]
  refine ⟨?_, Nat.mod_lt _ (by decide), horder.2, fun q hq => ?_, ?_⟩
  · show (w.nic.rxOffset + p.2.data.length + 4 + 3) / 4 * 4 % 8192 % 4 = 0
    omega
  · exact h.holds q (hfirst ▸ List.mem_cons_of_mem p hq)
  · show ((w.nic.rxOffset + p.2.data.length + 4 + 3) / 4 * 4 - 16 + 16) % 8192 = _
    rw [Nat.sub_add_cancel (by omega)]
    rfl

/-- The invariant of all runs. -/
theorem trace_rxInv {capr : Nat} (hcapr : (capr + 16) % 8192 = 0) {es : List RxEvent} {w : RxWorld}
    (h : Trace RxStep (RxWorld.start capr) es w) : RxInv w := by
  refine h.invariant ?_ (start_rxInv hcapr)
  intro s e t hs hst
  cases hst with
  | store f hroom => exact store_inv hs f hroom
  | consume p rest hfirst => exact consume_inv hs hfirst

/-- **The driver and the card stay in step.** In every run from a card whose read pointer is at
    the start of the ring, the driver's offset is a multiple of four within the ring, the card's
    offset of the oldest unconsumed frame, and the card's read pointer. Consuming a frame runs into
    no check of `update_capr` or `set_capr`. -/
theorem receive_in_step {capr : Nat} (hcapr : (capr + 16) % 8192 = 0) {es : List RxEvent}
    {w : RxWorld} (h : Trace RxStep (RxWorld.start capr) es w) :
    w.nic.rxOffset % 4 = 0 ∧ w.nic.rxOffset < baseBufSize ∧ w.nic.rxOffset = w.oldest ∧
    w.nic.rxOffset = w.nic.readPointer ∧
    (w.pending ≠ [] → (updateCapr w.nic).1 = .ok ()) := by
  have hw := trace_rxInv hcapr h
  have hold : w.nic.rxOffset = w.oldest := by
    unfold RxWorld.oldest
    split
    · next hnil =>
      have horder := hw.inOrder
      rw [hnil] at horder
      exact horder
    · next p rest hfirst => exact (hw.first hfirst).1.symm
  refine ⟨hw.aligned, hw.below, hold, hw.pointer.symm, fun hne => ?_⟩
  obtain ⟨p, rest, hfirst⟩ := List.exists_cons_of_ne_nil hne
  exact ((hw.first hfirst).2 w.nic rfl).1

/-- The shortest frame. -/
def shortFrame : Frame where
  status := 1
  data := List.replicate 64 0
  ok := rfl
  min := by decide
  max := by decide

/-- The card stores a frame, and the driver consumes it. -/
theorem receive_in_step_oneFrame :
    ∃ w, Trace RxStep (RxWorld.start 0xFFF0) [.store shortFrame, .consume] w ∧
      w.nic.rxOffset = w.nic.readPointer := by
  have stored := Trace.single (RxStep.store (RxWorld.start 0xFFF0) shortFrame nofun)
  have consumed := stored.snoc (.consume _ (0, shortFrame) [] rfl)
  exact ⟨_, consumed, (receive_in_step (by decide) consumed).2.2.2.1⟩

/-! ## 5. What is received -/

theorem getRxHdr_gives {n : Nic} {f : Frame} (hoff : n.rxOffset < 8192)
    (h : Holds n.rxBuffer (n.rxOffset, f)) :
    Gives id getRxHdr n (.ok (f.status &&& rxHeaderBits)) n := by
  unfold getRxHdr
  refine gives_get.then ((rxByte_gives hoff h (i := 0) (by decide)).then ?_)
  refine (rxByte_gives hoff h (by decide)).then ?_
  have hval : ((f.bytes.getD 1 0).toNat <<< 8) ||| (f.bytes.getD 0 0).toNat = f.status.toNat :=
    length_of_bytes f.status.isLt
  rw [hval, BitVec.ofNat_toNat, BitVec.setWidth_eq]
  exact gives_pure _

/-- The bytes behind the header are the frame. -/
theorem Holds.data {m : Nat → UInt8} {o : Nat} {f : Frame} (h : Holds m (o, f)) :
    (List.range f.data.length).map (fun i => m (o + 4 + i)) = f.data := by
  have hlen := f.length_bytes
  refine List.ext_getElem (by simp) fun i _ hi => ?_
  have hbyte : m (o + (4 + i)) = f.bytes.getD (4 + i) 0 := h (4 + i) (by dsimp only; omega)
  have hbytes : f.bytes.getD (4 + i) 0 = f.data.getD i 0 := by
    rw [Nat.add_comm]
    rfl
  rw [List.getElem_map, List.getElem_range, Nat.add_assoc, hbyte, hbytes,
    List.getD_eq_getElem?_getD, List.getElem?_eq_getElem hi, Option.getD_some]

/-- `read` and `receive` up to the slice: the header is there and says that the frame is good. -/
theorem read_up_to_slice {n : Nic} {f : Frame} (hoff : n.rxOffset < 8192)
    (h : Holds n.rxBuffer (n.rxOffset, f)) {o : Outcome Unit (Option (List UInt8))}
    (hslice : Gives id (do
      require (n.rxOffset + 4 + f.data.length ≤ bufSize)
      pure (some ((List.range f.data.length).map fun i => n.rxBuffer (n.rxOffset + 4 + i)))) n
      o n) : Gives id (read false) n o n := by
  have hok : f.status &&& rxHeaderBits &&& rxOk = rxOk := by
    rw [BitVec.and_assoc]
    exact f.ok
  refine (getRxHdr_gives hoff h).then ?_
  rw [if_pos hok]
  exact (getRxLen_gives hoff h).then (gives_get.then hslice)

/-- A frame that ends within the buffer is received. -/
theorem receive_gives {n : Nic} {f : Frame} (hoff : n.rxOffset < 8192)
    (h : Holds n.rxBuffer (n.rxOffset, f)) (hend : n.rxOffset + 4 + f.data.length ≤ bufSize) :
    Gives id (receive false) n (.ok f.data) n := by
  unfold receive
  have hread : Gives id (read false) n (.ok (some f.data)) n := by
    refine read_up_to_slice hoff h ((gives_require hend).then ?_)
    rw [h.data]
    exact gives_pure _
  exact hread.then (gives_pure _)

/-- A frame that does not is not. -/
theorem receive_panics {n : Nic} {f : Frame} (hoff : n.rxOffset < 8192)
    (h : Holds n.rxBuffer (n.rxOffset, f)) (hend : ¬ n.rxOffset + 4 + f.data.length ≤ bufSize) :
    Gives id (receive false) n .panic n := by
  unfold receive
  have hread : Gives id (read false) n .panic n :=
    read_up_to_slice hoff h (gives_require_not hend).then_panic
  exact hread.then_panic

/-- `RX_BUF_EMPTY`. -/
def RxWorld.rxEmpty (w : RxWorld) : Bool := w.pending.isEmpty

/-- **`receive` returns the oldest frame if it ends within the buffer**, and panics if it does
    not. -/
theorem RxInv.receive {w : RxWorld} (h : RxInv w) {p : Nat × Frame} {rest : List (Nat × Frame)}
    (hfirst : w.pending = p :: rest) :
    (w.nic.rxOffset + 4 + p.2.data.length ≤ bufSize →
      receive w.rxEmpty w.nic = (.ok p.2.data, w.nic)) ∧
    (¬ w.nic.rxOffset + 4 + p.2.data.length ≤ bufSize →
      receive w.rxEmpty w.nic = (.panic, w.nic)) := by
  obtain ⟨_, hholds⟩ := h.holds_first hfirst
  have hempty : w.rxEmpty = false := by
    rw [RxWorld.rxEmpty, hfirst]
    rfl
  rw [hempty]
  exact ⟨fun hend => Prod.ext_iff.mpr (receive_gives h.below hholds hend w.nic rfl),
    fun hend => Prod.ext_iff.mpr (receive_panics h.below hholds hend w.nic rfl)⟩

/-- **What is received.** In every run `receive` returns the oldest unconsumed frame, except if it
    starts at the last offset of the ring and is longer than 1516 bytes: such a frame ends behind
    the buffer, and `read` panics. -/
theorem receive_returns_iff {capr : Nat} (hcapr : (capr + 16) % 8192 = 0) {es : List RxEvent}
    {w : RxWorld} (h : Trace RxStep (RxWorld.start capr) es w) {p : Nat × Frame}
    {rest : List (Nat × Frame)} (hfirst : w.pending = p :: rest) :
    receive w.rxEmpty w.nic = (.ok p.2.data, w.nic) ↔
      ¬ (w.nic.rxOffset = 8188 ∧ 1516 < p.2.data.length) := by
  have hw := trace_rxInv hcapr h
  have haligned := hw.aligned
  have hbelow := hw.below
  have hmax := p.2.max
  have hend : w.nic.rxOffset + 4 + p.2.data.length ≤ bufSize ↔
      ¬ (w.nic.rxOffset = 8188 ∧ 1516 < p.2.data.length) := by
    simp only [bufSize]
    omega
  obtain ⟨hok, hpanic⟩ := hw.receive hfirst
  rw [← hend]
  refine ⟨fun hrun => ?_, hok⟩
  refine Decidable.byContradiction fun hover => ?_
  rw [hpanic hover] at hrun
  cases hrun

/-- The shortest frame is received. -/
theorem receive_returns_oneFrame :
    ∃ w, Trace RxStep (RxWorld.start 0xFFF0) [.store shortFrame] w ∧
      receive w.rxEmpty w.nic = (.ok shortFrame.data, w.nic) := by
  have stored := Trace.single (RxStep.store (RxWorld.start 0xFFF0) shortFrame nofun)
  exact ⟨_, stored, (receive_returns_iff (by decide) stored rfl).mpr (by decide)⟩

/-! ## 6. The last offset of the ring -/

/-- The steps of a stack that drops what it received. -/
def ReceivedStep (w : RxWorld) (e : RxEvent) (w' : RxWorld) : Prop :=
  RxStep w e w' ∧ (e = .consume → ∃ data, (receive w.rxEmpty w.nic).1 = .ok data)

/-- The frames `fs`, one after the other from offset `o`, end within the buffer. -/
def FitFrom : Nat → List Frame → Prop
  | _, [] => True
  | o, f :: fs =>
    o + 4 + f.data.length ≤ bufSize ∧ FitFrom (nextOffset o f.data.length) fs

/-- The offset behind the frames `fs`. -/
def offsetAfter : Nat → List Frame → Nat
  | o, [] => o
  | o, f :: fs => offsetAfter (nextOffset o f.data.length) fs

/-- A run in which every frame that was stored is received and dropped. -/
structure Drained (s w : RxWorld) : Prop where
  run : ∃ es, Trace ReceivedStep s es w
  inv : RxInv w
  empty : w.pending = []

/-- The card stores a frame. -/
theorem Drained.store {s w : RxWorld} (h : Drained s w) (f : Frame) :
    ∃ es w', Trace ReceivedStep s es w' ∧ RxInv w' ∧ w'.pending = [(w.cardOffset, f)] ∧
      w'.cardOffset = nextOffset w.cardOffset f.data.length := by
  obtain ⟨es, hrun⟩ := h.run
  have hroom : ∀ p ∈ w.pending, w.cardOffset + f.bytes.length ≤ p.1 ∨
      p.1 + p.2.bytes.length ≤ w.cardOffset := by
    rw [h.empty]
    nofun
  refine ⟨_, _, hrun.snoc ⟨.store w f hroom, nofun⟩, store_inv h.inv f hroom, ?_, rfl⟩
  rw [h.empty]
  rfl

/-- **One frame**, stored, received and dropped. -/
theorem Drained.exchange {s w : RxWorld} (h : Drained s w) {f : Frame}
    (hend : w.cardOffset + 4 + f.data.length ≤ bufSize) :
    ∃ w', Drained s w' ∧ w'.cardOffset = nextOffset w.cardOffset f.data.length := by
  obtain ⟨es, w₁, hrun, hinv, hpending, hoff⟩ := h.store f
  obtain ⟨hfirst, _⟩ := hinv.holds_first hpending
  have hok := (hinv.receive hpending).1 (by rw [← hfirst]; exact hend)
  refine ⟨_, ⟨⟨_, hrun.snoc ⟨.consume w₁ _ [] hpending, fun _ => ?_⟩⟩,
    consume_inv hinv hpending, rfl⟩, hoff⟩
  exact ⟨f.data, congrArg Prod.fst hok⟩

/-- **A sequence of frames.** -/
theorem Drained.exchangeAll {s : RxWorld} : ∀ {w : RxWorld} {fs : List Frame}, Drained s w →
    FitFrom w.cardOffset fs → ∃ w', Drained s w' ∧ w'.cardOffset = offsetAfter w.cardOffset fs
  | w, [], h, _ => ⟨w, h, rfl⟩
  | w, f :: fs, h, hfit => by
      obtain ⟨w₁, h₁, hoff⟩ := h.exchange hfit.1
      have hfit₁ : FitFrom w₁.cardOffset fs := by
        rw [hoff]
        exact hfit.2
      obtain ⟨w₂, h₂, hoff₂⟩ := h₁.exchangeAll hfit₁
      rw [hoff] at hoff₂
      exact ⟨w₂, h₂, hoff₂⟩

/-- A frame of zeros. -/
def zeroFrame (n : Nat) (hmin : 64 ≤ n) (hmax : n ≤ 1518) : Frame where
  status := 1
  data := List.replicate n 0
  ok := rfl
  min := by
    rw [List.length_replicate]
    exact hmin
  max := by
    rw [List.length_replicate]
    exact hmax

theorem length_zeroFrame {n : Nat} (hmin : 64 ≤ n) (hmax : n ≤ 1518) :
    (zeroFrame n hmin hmax).data.length = n := List.length_replicate

def longestFrame : Frame := zeroFrame 1518 (by decide) (by decide)

/-- Five of the longest frames, and one that leaves the card at the last offset. -/
def framesToLastOffset : List Frame :=
  [longestFrame, longestFrame, longestFrame, longestFrame, longestFrame,
    zeroFrame 564 (by decide) (by decide)]

theorem framesToLastOffset_fit :
    FitFrom 0 framesToLastOffset ∧ offsetAfter 0 framesToLastOffset = 8188 := by
  simp only [framesToLastOffset, longestFrame, FitFrom, offsetAfter, length_zeroFrame]
  decide

/-- Every frame so far was received and dropped, and the longest frame comes next. -/
theorem receive_panics_lastOffset :
    ∃ es w, Trace ReceivedStep (RxWorld.start 0xFFF0) es w ∧
      w.pending = [(8188, longestFrame)] ∧ (receive w.rxEmpty w.nic).1 = .panic := by
  obtain ⟨hfit, hlast⟩ := framesToLastOffset_fit
  have hstart : Drained (RxWorld.start 0xFFF0) (RxWorld.start 0xFFF0) :=
    ⟨⟨[], .nil⟩, start_rxInv (by decide), rfl⟩
  obtain ⟨w, hw, hoff⟩ := hstart.exchangeAll hfit
  have hoff' : w.cardOffset = 8188 := hoff.trans hlast
  obtain ⟨es, w₁, hrun, hinv, hpending, _⟩ := hw.store longestFrame
  rw [hoff'] at hpending
  obtain ⟨hfirst, _⟩ := hinv.holds_first hpending
  have hover : ¬ w₁.nic.rxOffset + 4 + longestFrame.data.length ≤ bufSize := by
    rw [← hfirst, longestFrame, length_zeroFrame]
    decide
  exact ⟨es, w₁, hrun, hpending, congrArg Prod.fst ((hinv.receive hpending).2 hover)⟩

end Sprocket.Rtl8139
