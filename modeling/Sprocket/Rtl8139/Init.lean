/-
  File:      Sprocket/Rtl8139/Init.lean
  Subject:   THE NETWORK CARD IS SET UP: from the scan of the PCI bus to the first interrupt.

  `Rtl8139::init` looks for the card on the bus, makes it a bus master, resets it and tells it where
  the receive ring and the four transmit buffers are. The buffers are boxes of the kernel's heap, so
  the driver knows their virtual addresses and the card is told physical ones, each buffer by its
  first byte only: the memory behind has to be contiguous for both.

  The card is modelled by the registers the function uses. It ignores what is written to it during a
  reset, which is over after a number of reads of the command register that is the card's own.

  * `tellTx_gives`, `configure_gives` -- what the card has been told;
  * `boxes_give` -- the two boxes, where five pages in a row are free;
  * `nic_init` -- the three ways `init` ends, and what it leaves.
-/
import Sprocket.Kalloc.PageRuns
import Sprocket.Lib.Loop
import Sprocket.Pci
import Sprocket.Picirq
import Sprocket.Rtl8139.Driver
import Sprocket.Vm.BootMemory

namespace Sprocket.Rtl8139

open Prog Kalloc Pci

/-! ## 1. The card -/

abbrev configReg1 : UInt16 := 0x52
abbrev cmdReg : UInt16 := 0x37
abbrev rbStartReg : UInt16 := 0x30
abbrev rxConfigReg : UInt16 := 0x44
abbrev imrReg : UInt16 := 0x3C

/-- `TSAD`: the registers with the addresses of the transmit buffers. -/
abbrev tsadRegs : List UInt16 := [0x20, 0x24, 0x28, 0x2c]

/-- The card: where its registers are, how long a reset takes, and the registers. `resetting` counts
    the reads of the command register until the reset is over. -/
structure Card where
  base : UInt16
  delay : Nat
  resetting : Nat
  config1 : UInt8
  command : UInt8
  rbStart : UInt32
  tsad : UInt16 → UInt32
  imr : UInt16
  rxConfig : UInt32
  tsd : Nat → BitVec 32
  capr : Nat

/-- The card after a reset has begun: the host owns the transmit descriptors. -/
def Card.reset (c : Card) : Card :=
  { c with
    resetting := c.delay
    command := 0
    rbStart := 0
    tsad := fun _ => 0
    imr := 0
    rxConfig := 0
    tsd := fun _ => own }

/-- A write during a reset is lost. -/
def Card.written (c d : Card) : Card := if c.resetting = 0 then d else c

def Card.outb (port : UInt16) (v : UInt8) (c : Card) : Card :=
  if port = c.base + configReg1 then c.written { c with config1 := v }
  else if port = c.base + cmdReg then
    if v &&& 0x10 ≠ 0 then c.reset else c.written { c with command := v }
  else c

def Card.outw (port v : UInt16) (c : Card) : Card :=
  if port = c.base + imrReg then c.written { c with imr := v } else c

def Card.outl (port : UInt16) (v : UInt32) (c : Card) : Card :=
  if port = c.base + rbStartReg then c.written { c with rbStart := v }
  else if port = c.base + rxConfigReg then c.written { c with rxConfig := v }
  else if port - c.base ∈ tsadRegs then
    c.written { c with tsad := Function.update c.tsad (port - c.base) v }
  else c

/-- Reading the command register; no other one is read here. -/
def Card.inb (_port : UInt16) (c : Card) : UInt8 × Card :=
  if c.resetting = 0 then (c.command, c)
  else (c.command ||| 0x10, { c with resetting := c.resetting - 1 })

/-! ## 2. The code -/

/-- The PCI bus, the card, the interrupt controllers and the heap. -/
structure World where
  bus : Bus
  card : Card
  pics : Picirq.Pics
  heap : Allocator

def onBus {α : Type} : Prog Bus Unit α → Prog World Unit α :=
  zoom World.bus fun w b => { w with bus := b }

def onPics {α : Type} : Prog Picirq.Pics Unit α → Prog World Unit α :=
  zoom World.pics fun w p => { w with pics := p }

def onHeap {ε α : Type} : Prog Allocator ε α → Prog World ε α :=
  zoom World.heap fun w a => { w with heap := a }

def outb (port : UInt16) (v : UInt8) : Prog World Unit Unit :=
  modify fun w => { w with card := w.card.outb port v }

def outw (port v : UInt16) : Prog World Unit Unit :=
  modify fun w => { w with card := w.card.outw port v }

def outl (port : UInt16) (v : UInt32) : Prog World Unit Unit :=
  modify fun w => { w with card := w.card.outl port v }

def inb (port : UInt16) : Prog World Unit UInt8 := fun w =>
  (.ok (w.card.inb port).1, { w with card := (w.card.inb port).2 })

abbrev realtek : UInt16 := 0x10ec
abbrev rtl8139 : UInt16 := 0x8139

/-- `IntStatus::all` -/
abbrev intStatusAll : UInt16 := 0xE07F

/-- `WRAP | ACCEPT_PHYS_MATCH | ACCEPT_BCAST | RX_BUF_8K` -/
abbrev rxConfigBits : UInt32 := 0x80 ||| 0x02 ||| 0x08 ||| 0

/-- `RX_ENABLE | TX_ENABLE` -/
abbrev rxTxEnable : UInt8 := 0x08 ||| 0x04

/-- The fields of `Rtl8139`; the buffers by their addresses. -/
structure Rtl where
  pci : PciDevice
  iobase : UInt16
  rxBuffer : Nat
  txBuffer : Nat
  txOffset : Nat
  freeTxBuffers : Nat
  rxOffset : Nat

section Code

variable (kend rounds : Nat)

/-- `box [0; size]`, which aborts when the allocator fails. -/
def boxBytes (size : Nat) : Prog World Unit Nat := unwrap (onHeap (alloc kend ⟨size, 1⟩))

/-- The condition of the loop that waits for the reset. -/
def readReset (iobase : UInt16) : Prog World Unit Bool := do
  let port ← checkedAddU16 iobase cmdReg
  let x ← inb port
  pure (x &&& 0x10 != 0)

/-- `while { (inb(..) & 0x10) != 0 } {}`; the error is that the rounds are used up. -/
def waitReset (iobase : UInt16) : Prog World Unit Bool :=
  whileLoop id (fun _ => readReset iobase) () rounds true

/-- The loop over `TSAD`. -/
def tellTx (iobase : UInt16) (txBuffer : Nat) : Nat → List UInt16 → Prog World Unit Unit
  | _, [] => pure ()
  | off, tsad :: rest => do
    let port ← checkedAddU16 iobase tsad
    let phys ← toPhys (txBuffer + txBufSize * off)
    outl port (UInt32.ofNat phys)
    tellTx iobase txBuffer (off + 1) rest

/-- What `init` does to the card. -/
def configure (iobase : UInt16) (rxBuffer txBuffer : Nat) : Prog World Unit Unit := do
  -- "Power on the card"
  let port ← checkedAddU16 iobase configReg1
  outb port 0x0
  -- "Perform software reset"
  let port ← checkedAddU16 iobase cmdReg
  outb port 0x10
  let _ ← waitReset rounds iobase
  let port ← checkedAddU16 iobase rbStartReg
  let phys ← toPhys rxBuffer
  outl port (UInt32.ofNat phys)
  tellTx iobase txBuffer 0 tsadRegs
  let port ← checkedAddU16 iobase imrReg
  outw port intStatusAll
  let port ← checkedAddU16 iobase rxConfigReg
  outl port rxConfigBits
  let port ← checkedAddU16 iobase cmdReg
  outb port rxTxEnable

/-- "Unmask NIC interrupts in the PIC" -/
def enableLine (dev : PciDevice) : Prog World Unit Unit := do
  let irq ← onBus (readIrq dev)
  require (Traps.Interrupt.nicIrq = irq.1)
  onPics (Picirq.enableIrq Traps.Interrupt.nicIrq.toUInt32)

/-- `init` once the card is found. -/
def initDevice (dev : PciDevice) : Prog World Unit Rtl := do
  onBus (setCommandFlags dev busMaster)
  let bar0 ← onBus (readBar0 dev)
  require ((bar0 &&& 0x1).toUInt8 = barTypeIo)
  let iobase := (bar0 &&& ~~~ 0x3).toUInt16
  let rxBuffer ← boxBytes kend bufSize
  let txBuffer ← boxBytes kend (txBufSize * numTxBuffers)
  configure rounds iobase rxBuffer txBuffer
  enableLine dev
  pure {
    pci := dev
    iobase := iobase
    rxBuffer := rxBuffer
    txBuffer := txBuffer
    txOffset := 0
    freeTxBuffers := numTxBuffers
    rxOffset := 0 }

/-- The two branches of `init`. -/
def initFound : Option PciDevice → Prog World Unit (Option Rtl)
  | none => pure none
  | some dev => do
    let rtl ← initDevice kend rounds dev
    pure (some rtl)

def init : Prog World Unit (Option Rtl) := do
  let found ← onBus (find realtek rtl8139)
  initFound kend rounds found

end Code

/-! ## 3. What the card has been told -/

/-- The world but for the address register of the bus. -/
structure Seen where
  space : UInt32 → UInt32
  card : Card
  pics : Picirq.Pics
  heap : Allocator

def World.seen (w : World) : Seen := ⟨w.bus.space, w.card, w.pics, w.heap⟩

section Parts

variable {α : Type} {v : Seen}

theorem gives_onBus {m : Prog Bus Unit α} {o : Outcome Unit α} {sp : UInt32 → UInt32}
    (h : Gives Bus.space m v.space o sp) :
    Gives World.seen (onBus m) v o { v with space := sp } := by
  refine h.zoom (fun w hw => ?_) fun w b hw hb => ?_
  · rw [← hw]
    rfl
  · rw [← hw, ← hb]
    rfl

theorem gives_onPics {m : Prog Picirq.Pics Unit α} {o : Outcome Unit α} {p : Picirq.Pics}
    (h : Gives id m v.pics o p) : Gives World.seen (onPics m) v o { v with pics := p } := by
  refine h.zoom (fun w hw => ?_) fun w b hw hb => ?_
  · rw [← hw]
    rfl
  · rw [← hw, ← hb]
    rfl

theorem gives_onHeap {ε : Type} {m : Prog Allocator ε α} {o : Outcome ε α} {a : Allocator}
    (h : Gives id m v.heap o a) : Gives World.seen (onHeap m) v o { v with heap := a } := by
  refine h.zoom (fun w hw => ?_) fun w b hw hb => ?_
  · rw [← hw]
    rfl
  · rw [← hw, ← hb]
    rfl

theorem gives_outb {port : UInt16} {x : UInt8} {c : Card} (h : v.card.outb port x = c) :
    Gives World.seen (outb port x) v (.ok ()) { v with card := c } :=
  gives_modify_view fun w hw => by rw [← h, ← hw]; rfl

theorem gives_outw {port x : UInt16} {c : Card} (h : v.card.outw port x = c) :
    Gives World.seen (outw port x) v (.ok ()) { v with card := c } :=
  gives_modify_view fun w hw => by rw [← h, ← hw]; rfl

theorem gives_outl {port : UInt16} {x : UInt32} {c : Card} (h : v.card.outl port x = c) :
    Gives World.seen (outl port x) v (.ok ()) { v with card := c } :=
  gives_modify_view fun w hw => by rw [← h, ← hw]; rfl

theorem gives_inb (port : UInt16) :
    Gives World.seen (inb port) v (.ok (v.card.inb port).1)
      { v with card := (v.card.inb port).2 } := by
  intro w hw
  rw [← hw]
  exact ⟨rfl, rfl⟩

end Parts

section Registers

variable (c : Card)

theorem port_ne {x y : UInt16} (h : x ≠ y) : c.base + x ≠ c.base + y :=
  fun he => h (UInt16.add_right_inj c.base |>.mp he)

theorem port_offset (x : UInt16) : c.base + x - c.base = x := by
  rw [UInt16.add_comm, UInt16.add_sub_cancel]

theorem written_ready {d : Card} (h : c.resetting = 0) : c.written d = d := if_pos h

theorem outb_reset : c.outb (c.base + cmdReg) 0x10 = c.reset := by
  unfold Card.outb
  rw [if_neg (port_ne c (by decide)), if_pos rfl, if_pos (by decide)]

theorem outb_command {v : UInt8} (h : c.resetting = 0) (hv : v &&& 0x10 = 0) :
    c.outb (c.base + cmdReg) v = { c with command := v } := by
  unfold Card.outb
  rw [if_neg (port_ne c (by decide)), if_pos rfl, if_neg (by simp [hv]), written_ready c h]

theorem outw_imr (v : UInt16) (h : c.resetting = 0) :
    c.outw (c.base + imrReg) v = { c with imr := v } := by
  unfold Card.outw
  rw [if_pos rfl, written_ready c h]

theorem outl_rbStart (v : UInt32) (h : c.resetting = 0) :
    c.outl (c.base + rbStartReg) v = { c with rbStart := v } := by
  unfold Card.outl
  rw [if_pos rfl, written_ready c h]

theorem outl_rxConfig (v : UInt32) (h : c.resetting = 0) :
    c.outl (c.base + rxConfigReg) v = { c with rxConfig := v } := by
  unfold Card.outl
  rw [if_neg (port_ne c (by decide)), if_pos rfl, written_ready c h]

theorem tsadRegs_apart {r : UInt16} (hr : r ∈ tsadRegs) :
    r ≠ rbStartReg ∧ r ≠ rxConfigReg ∧ r.toNat ≤ 0x52 := by
  simp only [tsadRegs, List.mem_cons, List.not_mem_nil, or_false] at hr
  rcases hr with rfl | rfl | rfl | rfl <;> decide

theorem outl_tsad (v : UInt32) (h : c.resetting = 0) {r : UInt16} (hr : r ∈ tsadRegs) :
    c.outl (c.base + r) v = { c with tsad := Function.update c.tsad r v } := by
  obtain ⟨hstart, hconfig, _⟩ := tsadRegs_apart hr
  unfold Card.outl
  rw [if_neg (port_ne c hstart), if_neg (port_ne c hconfig), port_offset, if_pos hr,
    written_ready c h]

end Registers

section Told

variable {v : Seen} {rounds : Nat}

theorem readReset_gives {x : UInt8} {c : Card} {busy : Bool}
    (hport : v.card.base.toNat + 0x52 < 2 ^ 16)
    (hread : v.card.inb (v.card.base + cmdReg) = (x, c)) (hbusy : (x &&& 0x10 != 0) = busy) :
    Gives World.seen (readReset v.card.base) v (.ok busy) { v with card := c } := by
  have hadd : v.card.base.toNat + cmdReg.toNat < 2 ^ 16 :=
    Nat.lt_of_le_of_lt (Nat.add_le_add_left (by decide) _) hport
  have hinb := gives_inb (v := v) (v.card.base + cmdReg)
  rw [hread] at hinb
  rw [← hbusy]
  exact (gives_checkedAddU16 hadd).then (hinb.then (gives_pure _))

theorem waitReset_succ (iobase : UInt16) :
    waitReset (rounds + 1) iobase =
      (readReset iobase >>= whileLoop id (fun _ => readReset iobase) () rounds) := rfl

/-- **The reset is waited for**, however long it takes. -/
theorem waitReset_gives : ∀ {n rounds : Nat} {v : Seen}, v.card.resetting = n →
    v.card.command = 0 → v.card.base.toNat + 0x52 < 2 ^ 16 → n + 2 ≤ rounds →
    Gives World.seen (waitReset rounds v.card.base) v (.ok false)
      { v with card := { v.card with resetting := 0 } } := by
  intro n
  induction n with
  | zero =>
    intro rounds v hready hcommand hport hrounds
    obtain ⟨k, rfl⟩ : ∃ k, rounds = k + 2 := ⟨rounds - 2, by omega⟩
    have hinb : v.card.inb (v.card.base + cmdReg) = (v.card.command, v.card) := if_pos hready
    have hread : Gives World.seen (readReset v.card.base) v (.ok false) v :=
      readReset_gives hport hinb (by rw [hcommand]; decide)
    have hsame : { v with card := { v.card with resetting := 0 } } = v := by rw [← hready]
    rw [waitReset_succ, hsame]
    exact hread.then (gives_pure _)
  | succ n ih =>
    intro rounds v hbusy hcommand hport hrounds
    obtain ⟨k, rfl⟩ : ∃ k, rounds = k + 1 := ⟨rounds - 1, by omega⟩
    have hinb : v.card.inb (v.card.base + cmdReg) =
        (v.card.command ||| 0x10, { v.card with resetting := v.card.resetting - 1 }) :=
      if_neg (by omega)
    have hread : Gives World.seen (readReset v.card.base) v (.ok true)
        { v with card := { v.card with resetting := n } } := by
      rw [hbusy] at hinb
      exact readReset_gives hport hinb (by rw [hcommand]; decide)
    rw [waitReset_succ]
    exact hread.then (ih (v := { v with card := { v.card with resetting := n } }) rfl hcommand hport
      (by omega))

/-- The registers of the transmit buffers after the loop from `off` on. -/
def toldTx (txBuffer : Nat) : Nat → List UInt16 → (UInt16 → UInt32) → UInt16 → UInt32
  | _, [], tsad => tsad
  | off, r :: rest, tsad => toldTx txBuffer (off + 1) rest
      (Function.update tsad r (UInt32.ofNat (txBuffer + txBufSize * off - kernbase)))

theorem tellTx_gives {txBuffer : Nat} (htx : kernbase ≤ txBuffer) :
    ∀ {regs : List UInt16} {off : Nat} {v : Seen}, (∀ r ∈ regs, r ∈ tsadRegs) →
    v.card.resetting = 0 → v.card.base.toNat + 0x52 < 2 ^ 16 →
    Gives World.seen (tellTx v.card.base txBuffer off regs) v (.ok ())
      { v with card := { v.card with tsad := toldTx txBuffer off regs v.card.tsad } } := by
  intro regs
  induction regs with
  | nil => exact fun _ _ _ => gives_pure _
  | cons r rest ih =>
    intro off v hregs hready hport
    have hr := hregs r List.mem_cons_self
    have hadd : v.card.base.toNat + r.toNat < 2 ^ 16 := by
      have hle := (tsadRegs_apart hr).2.2
      omega
    unfold tellTx
    refine (gives_checkedAddU16 hadd).then ((gives_checkedSub (by omega)).then ?_)
    refine (gives_outl (outl_tsad _ _ hready hr)).then ?_
    exact ih (fun x hx => hregs x (List.mem_cons_of_mem r hx)) hready hport

/-- The card as `init` leaves it. -/
def Card.told (c : Card) (rxBuffer txBuffer : Nat) : Card :=
  { c.reset with
    resetting := 0
    command := rxTxEnable
    rbStart := UInt32.ofNat (rxBuffer - kernbase)
    tsad := toldTx txBuffer 0 tsadRegs fun _ => 0
    imr := intStatusAll
    rxConfig := rxConfigBits }

/-- What follows the first write to the card. -/
theorem configure_card {c : Card} {rxBuffer txBuffer : Nat} (hport : c.base.toNat + 0x52 < 2 ^ 16)
    (hrounds : c.delay + 2 ≤ rounds) (hrx : kernbase ≤ rxBuffer) (htx : kernbase ≤ txBuffer)
    (hcard : v.card.outb (c.base + configReg1) 0x0 = c) :
    Gives World.seen (configure rounds c.base rxBuffer txBuffer) v (.ok ())
      { v with card := c.told rxBuffer txBuffer } := by
  have hadd : ∀ {x : UInt16}, x ≤ configReg1 → c.base.toNat + x.toNat < 2 ^ 16 := fun hx =>
    Nat.lt_of_le_of_lt (Nat.add_le_add_left (UInt16.le_iff_toNat_le.mp hx) _) hport
  unfold configure
  refine (gives_checkedAddU16 (hadd (by decide))).then ((gives_outb hcard).then ?_)
  refine (gives_checkedAddU16 (hadd (by decide))).then ((gives_outb (outb_reset c)).then ?_)
  refine Gives.then (waitReset_gives (v := { v with card := c.reset }) rfl rfl hport hrounds) ?_
  refine (gives_checkedAddU16 (hadd (by decide))).then ((gives_checkedSub hrx).then ?_)
  refine Gives.then (gives_outl (outl_rbStart { c.reset with resetting := 0 } _ rfl)) ?_
  refine Gives.then (tellTx_gives htx (fun _ hr => hr) rfl hport) ?_
  refine (gives_checkedAddU16 (hadd (by decide))).then ?_
  refine Gives.then (gives_outw (outw_imr { c.told rxBuffer txBuffer with
    command := 0, imr := 0, rxConfig := 0 } _ rfl)) ?_
  refine (gives_checkedAddU16 (hadd (by decide))).then ?_
  refine Gives.then (gives_outl (outl_rxConfig { c.told rxBuffer txBuffer with
    command := 0, rxConfig := 0 } _ rfl)) ?_
  refine (gives_checkedAddU16 (hadd (by decide))).then ?_
  exact gives_outb (outb_command { c.told rxBuffer txBuffer with command := 0 } rfl (by decide))

end Told

/-! ## 4. The boxes -/

/-- Where there is room for `k` pages more, there is room for them afterwards. -/
theorem carved_room {n k p : Nat} {l l' : List Range} (h : Carved n l p l') (hk : 0 < k)
    (hroom : ∃ r ∈ l, n + k ≤ r.size + 1) : ∃ r ∈ l', k ≤ r.size + 1 := by
  induction h with
  | @tail r l hle =>
    obtain ⟨s, hs, hsize⟩ := hroom
    rcases List.mem_cons.mp hs with rfl | hs
    · refine ⟨_, List.mem_cons_self, ?_⟩
      dsimp only
      omega
    · exact ⟨s, List.mem_cons_of_mem _ hs, by omega⟩
  | @whole r l heq =>
    obtain ⟨s, hs, hsize⟩ := hroom
    rcases List.mem_cons.mp hs with rfl | hs
    · omega
    · exact ⟨s, hs, by omega⟩
  | @skip r l l' p hlt hl ih =>
    obtain ⟨s, hs, hsize⟩ := hroom
    rcases List.mem_cons.mp hs with rfl | hs
    · omega
    · obtain ⟨t, ht, htsize⟩ := ih ⟨s, hs, hsize⟩
      exact ⟨t, List.mem_cons_of_mem _ ht, htsize⟩

/-- **A box where there is room**, and room for `k` pages more. -/
theorem boxBytes_gives {kend size k : Nat} {v : Seen} (h : FreeInv kend v.heap)
    (hsize : size + 4096 < 2 ^ 32) (hroom : ∃ r ∈ v.heap.ranges, pagesFor size + k ≤ r.size + 1) :
    ∃ p a, Gives World.seen (boxBytes kend size) v (.ok p) { v with heap := a } ∧
      FreeInv kend a ∧ p % 4096 = 0 ∧ (0 < k → ∃ r ∈ a.ranges, k ≤ r.size + 1) ∧
      (freePages v.heap).Perm (pagesAt p (pagesFor size) ++ freePages a) := by
  rcases allocate_carves h hsize with ⟨p, l, hcarved, hg⟩ | ⟨hfull, -⟩
  · obtain ⟨halign, hperm⟩ := hcarved.pages h.aligned
    refine ⟨p, _, Gives.unwrap_ok (gives_onHeap (a := { v.heap with
      ranges := l, length := v.heap.length - pagesFor size }) ?_), (h.carved hcarved).2, halign,
      fun hk => carved_room hcarved hk hroom, hperm⟩
    have hone : 1 ≤ pgsize := by decide
    exact (gives_require hone).then (ends_mapErr (hg.ends ⟨rfl, rfl⟩))
  · obtain ⟨r, hr, hsize'⟩ := hroom
    have hshort := hfull r hr
    omega

/-! ## 5. The ways `init` ends -/

/-- `BAR0` and the interrupt line of a device. -/
def bar0Of (sp : UInt32 → UInt32) (d : PciDevice) : UInt32 :=
  sp (configAddress d.bus d.slot d.func 0x10)

def lineOf (sp : UInt32 → UInt32) (d : PciDevice) : UInt8 :=
  (field sp d.bus d.slot d.func 0x3c &&& 0xff).toUInt8

/-- Configuration space with bus mastering enabled. -/
def mastered (sp : UInt32 → UInt32) (d : PciDevice) : UInt32 → UInt32 :=
  Function.update sp (configAddress d.bus d.slot d.func cmdRegOffset)
    (joined (field sp d.bus d.slot d.func 6)
      (field sp d.bus d.slot d.func cmdRegOffset ||| busMaster))

section Master

variable {sp : UInt32 → UInt32} {d : PciDevice}

theorem bar0Of_mastered (hs : d.slot < 32) (hf : d.func < 8) :
    bar0Of (mastered sp d) d = bar0Of sp d := by
  refine Function.update_of_ne (fun h => ?_) _ _
  have hword := ((configAddress_eq_iff hs hf hs hf cmdRegOffset 0x10).mp h).2
  exact absurd hword (by decide)

theorem lineOf_mastered (hs : d.slot < 32) (hf : d.func < 8) :
    lineOf (mastered sp d) d = lineOf sp d := by
  have hother : ¬ ((d.bus, d.slot, d.func) = (d.bus, d.slot, d.func) ∧
      (0x3c : UInt8).toNat / 4 = cmdRegOffset.toNat / 4) := fun h => absurd h.2 (by decide)
  unfold lineOf mastered
  rw [field_update_other sp hs hf hs hf hother]

theorem readIrq_gives (d : PciDevice) :
    Gives Bus.space (readIrq d) sp
      (.ok (lineOf sp d, (field sp d.bus d.slot d.func 0x3c >>> 8).toUInt8)) sp :=
  (configRead16_gives _ _ _ _).then (gives_pure _)

end Master

section Init

variable {kend rounds : Nat} {v : Seen} {d : PciDevice}

/-- **A card at a memory address is refused** before anything is allocated. -/
theorem initDevice_memory (hs : d.slot < 32) (hf : d.func < 8)
    (hbar : (bar0Of v.space d &&& 0x1).toUInt8 ≠ barTypeIo) :
    Gives World.seen (initDevice kend rounds d) v .panic
      { v with space := mastered v.space d } := by
  unfold initDevice
  refine Gives.then (gives_onBus (setCommandFlags_gives d busMaster)) ?_
  refine Gives.then (gives_onBus (configRead32_gives _ _ _ _)) ?_
  refine Gives.then_panic (gives_require_not ?_)
  show ¬ (bar0Of (mastered v.space d) d &&& 0x1).toUInt8 = barTypeIo
  rw [bar0Of_mastered hs hf]
  exact hbar

/-- The memory of the card's buffers: three pages and two, which were free and are not any more. -/
structure Boxes (kend : Nat) (before after : Allocator) (rxBuffer txBuffer : Nat) : Prop where
  free : FreeInv kend after
  rxAligned : rxBuffer % 4096 = 0
  txAligned : txBuffer % 4096 = 0
  pages : (freePages before).Perm
    (pagesAt rxBuffer 3 ++ (pagesAt txBuffer 2 ++ freePages after))

/-- The driver's fields after `init`. -/
def rtlAt (d : PciDevice) (iobase : UInt16) (rxBuffer txBuffer : Nat) : Rtl where
  pci := d
  iobase := iobase
  rxBuffer := rxBuffer
  txBuffer := txBuffer
  txOffset := 0
  freeTxBuffers := numTxBuffers
  rxOffset := 0

theorem boxes_give (h : FreeInv kend v.heap) (hroom : ∃ r ∈ v.heap.ranges, 5 ≤ r.size + 1) :
    ∃ rx tx a1 a2, Gives World.seen (boxBytes kend bufSize) v (.ok rx) { v with heap := a1 } ∧
      Gives World.seen (boxBytes kend (txBufSize * numTxBuffers)) { v with heap := a1 } (.ok tx)
        { v with heap := a2 } ∧ Boxes kend v.heap a2 rx tx := by
  obtain ⟨rx, a1, hrx, hfree1, hal1, hroom1, hperm1⟩ :=
    boxBytes_gives (k := 2) h (by decide : bufSize + 4096 < 2 ^ 32) hroom
  have htwo := hroom1 (by decide)
  obtain ⟨tx, a2, htx, hfree2, hal2, -, hperm2⟩ :=
    boxBytes_gives (k := 0) (v := { v with heap := a1 }) hfree1
      (by decide : txBufSize * numTxBuffers + 4096 < 2 ^ 32) htwo
  exact ⟨rx, tx, a1, a2, hrx, htx, hfree2, hal1, hal2, hperm1.trans (hperm2.append_left _)⟩

/-- A box is memory of the kernel. -/
theorem Boxes.bounds {a a' : Allocator} {rx tx : Nat} (hfree : FreeInv kend a)
    (h : Boxes kend a a' rx tx) :
    (lowest kend ≤ rx ∧ rx + 12288 ≤ highest) ∧ lowest kend ≤ tx ∧ tx + 8192 ≤ highest := by
  have hmem : ∀ q ∈ pagesAt rx 3 ++ pagesAt tx 2, lowest kend ≤ 4096 * q ∧ 4096 * q < highest := by
    intro q hq
    refine hfree.page_bounds (h.pages.mem_iff.mpr ?_)
    rw [← List.append_assoc]
    exact List.mem_append_left _ hq
  have hrx := h.rxAligned
  have htx := h.txAligned
  have htop : highest % 4096 = 0 := by decide
  have hrx0 := hmem (rx / 4096) (by simp [pagesAt])
  have hrx2 := hmem (rx / 4096 + 2) (by simp [pagesAt])
  have htx0 := hmem (tx / 4096) (by simp [pagesAt])
  have htx1 := hmem (tx / 4096 + 1) (by simp [pagesAt])
  omega

/-- **`init` up to the interrupt line.** -/
theorem initDevice_ends (hs : d.slot < 32) (hf : d.func < 8)
    (hbar : (bar0Of v.space d &&& 0x1).toUInt8 = barTypeIo)
    (hbase : (bar0Of v.space d &&& ~~~ 0x3).toUInt16 = v.card.base)
    (hport : v.card.base.toNat + 0x52 < 2 ^ 16) (hrounds : v.card.delay + 2 ≤ rounds)
    (hfree : FreeInv kend v.heap) (hroom : ∃ r ∈ v.heap.ranges, 5 ≤ r.size + 1) :
    ∃ rx tx a c, Boxes kend v.heap a rx tx ∧ ∀ Q,
      Ends World.seen (enableLine d >>= fun _ => pure (rtlAt d v.card.base rx tx))
        ⟨mastered v.space d, Card.told c rx tx, v.pics, a⟩ Q →
      Ends World.seen (initDevice kend rounds d) v Q := by
  obtain ⟨rx, tx, a1, a2, hrx, htx, hboxes⟩ :=
    boxes_give (v := { v with space := mastered v.space d }) hfree hroom
  obtain ⟨⟨hlow, -⟩, hlow', -⟩ := hboxes.bounds hfree
  have hk : kernbase ≤ lowest kend :=
    Nat.le_trans hfree.kend_ge (Nat.le_of_lt (Vm.lt_lowest kend))
  obtain ⟨c, hc⟩ : ∃ c, v.card.outb (v.card.base + configReg1) 0x0 = c := ⟨_, rfl⟩
  have hsame : c.base = v.card.base ∧ c.delay = v.card.delay := by
    rw [← hc, Card.outb, if_pos rfl, Card.written]
    split <;> exact ⟨rfl, rfl⟩
  have hread : Gives World.seen (onBus (readBar0 d)) { v with space := mastered v.space d }
      (.ok (bar0Of v.space d)) { v with space := mastered v.space d } := by
    rw [← bar0Of_mastered hs hf]
    exact gives_onBus (configRead32_gives _ _ _ _)
  have hconfigure : Gives World.seen (configure rounds v.card.base rx tx)
      ⟨mastered v.space d, v.card, v.pics, a2⟩ (.ok ())
      ⟨mastered v.space d, c.told rx tx, v.pics, a2⟩ := by
    rw [← hsame.1] at hport hc ⊢
    rw [← hsame.2] at hrounds
    exact configure_card hport hrounds (Nat.le_trans hk hlow) (Nat.le_trans hk hlow') hc
  refine ⟨rx, tx, a2, c, hboxes, fun Q hQ => ?_⟩
  unfold initDevice
  refine Gives.then (gives_onBus (setCommandFlags_gives d busMaster)) ?_
  refine Gives.then hread ((gives_require hbar).then ?_)
  dsimp only
  rw [hbase]
  exact hrx.then (htx.then (hconfigure.then hQ))

/-- The line is enabled, or it is not the one the kernel expects. -/
theorem enableLine_gives (hline : lineOf v.space d = Traps.Interrupt.nicIrq) :
    Gives World.seen (enableLine d) v (.ok ()) { v with pics := Picirq.enabled v.pics 0xb } := by
  unfold enableLine
  refine Gives.then (gives_onBus (readIrq_gives d)) ((gives_require hline.symm).then ?_)
  exact gives_onPics (gives_id_iff.mpr (Picirq.enableIrq_gives v.pics (by decide)))

theorem enableLine_panics (hline : lineOf v.space d ≠ Traps.Interrupt.nicIrq) :
    Gives World.seen (enableLine d) v .panic v := by
  unfold enableLine
  exact Gives.then (gives_onBus (readIrq_gives d)) (gives_require_not hline.symm).then_panic

end Init

section Result

variable {sp : UInt32 → UInt32} {d : PciDevice}

theorem toldTx_at (txBuffer : Nat) {i : Nat} (hi : i < numTxBuffers) :
    toldTx txBuffer 0 tsadRegs (fun _ => 0) (tsadRegs.getD i 0) =
      UInt32.ofNat (txBuffer + txBufSize * i - kernbase) := by
  rcases i with _ | _ | _ | _ | i
  · simp [toldTx]
  · simp [toldTx]
  · simp [toldTx]
  · simp [toldTx]
  · simp only [numTxBuffers] at hi
    omega

/-- Bus mastering changes the command register only. -/
theorem field_mastered (hs : d.slot < 32) (hf : d.func < 8) {bus slot func offset : UInt8}
    (hs' : slot < 32) (hf' : func < 8)
    (hother : (bus, slot, func) = (d.bus, d.slot, d.func) → offset.toNat / 2 ≠ 2) :
    field (mastered sp d) bus slot func offset = field sp bus slot func offset := by
  by_cases hword : (bus, slot, func) = (d.bus, d.slot, d.func) ∧
      offset.toNat / 4 = cmdRegOffset.toNat / 4
  · obtain ⟨hplace, hoff⟩ := hword
    have hne := hother hplace
    simp only [Prod.mk.injEq] at hplace
    obtain ⟨rfl, rfl, rfl⟩ := hplace
    have hfour : cmdRegOffset.toNat / 4 = 1 := rfl
    have hsix : configAddress d.bus d.slot d.func offset = configAddress d.bus d.slot d.func 6 :=
      (configAddress_eq_iff hs hf hs hf 6 offset).mpr ⟨rfl, hoff⟩
    have hhigh : ¬ offset.toNat / 2 % 2 = 0 := by omega
    unfold mastered
    rw [field_update_word sp hs hf hoff, half, if_neg hhigh, highHalf_joined, field, field, half,
      half, if_neg hhigh, if_neg (by decide), hsix]
  · exact field_update_other sp hs hf hs' hf' hword _

theorem command_mastered (hs : d.slot < 32) (hf : d.func < 8) :
    field (mastered sp d) d.bus d.slot d.func cmdRegOffset =
      field sp d.bus d.slot d.func cmdRegOffset ||| busMaster := by
  unfold mastered
  rw [field_update_word sp hs hf rfl, half, if_pos (by decide), lowHalf_joined]

/-- The driver and the registers of the card it reads and writes. -/
def Rtl.nic (r : Rtl) (c : Card) : Nic where
  rxBuffer _ := 0
  txBuffer _ := List.replicate txBufSize 0
  txOffset := r.txOffset
  freeTxBuffers := r.freeTxBuffers
  rxOffset := r.rxOffset
  tsd := c.tsd
  capr := c.capr

/-- **What `init` leaves** when it returns a driver. -/
structure SetUp (kend dataBegin : Nat) (d : PciDevice) (w : World) (r : Rtl) (w' : World) :
    Prop where
  device : r.pci = d ∧ r.iobase = w.card.base
  /-- The device is a bus master. Nothing else has changed in configuration space. -/
  command : field w'.bus.space d.bus d.slot d.func cmdRegOffset =
    field w.bus.space d.bus d.slot d.func cmdRegOffset ||| busMaster
  fields : ∀ bus slot func offset : UInt8, slot < 32 → func < 8 →
    ((bus, slot, func) = (d.bus, d.slot, d.func) → offset.toNat / 2 ≠ 2) →
    field w'.bus.space bus slot func offset = field w.bus.space bus slot func offset
  /-- The reset is over, and everything that was written afterwards has arrived. -/
  card : w'.card.resetting = 0 ∧ w'.card.command = rxTxEnable ∧ w'.card.imr = intStatusAll ∧
    w'.card.rxConfig = rxConfigBits
  /-- In the kernel's address space every byte of a buffer is where the card reads or writes it. -/
  receive : ∀ k < bufSize, Vm.kernelSpace dataBegin (r.rxBuffer + k) =
    some (w'.card.rbStart.toNat + k, true)
  transmit : ∀ i < numTxBuffers, ∀ k < txBufSize,
    Vm.kernelSpace dataBegin (r.txBuffer + txBufSize * i + k) =
      some ((w'.card.tsad (tsadRegs.getD i 0)).toNat + k, true)
  /-- The buffers were free memory, and the allocator does not have it any more. -/
  memory : Boxes kend w.heap w'.heap r.rxBuffer r.txBuffer
  /-- The driver starts with four transmit descriptors of the host. -/
  driver : r.nic w'.card = Nic.reset w'.card.capr
  line : w'.pics = Picirq.enabled w.pics 0xb

/-- A byte of a box, for the driver and for the card. -/
theorem kernelSpace_box {kend dataBegin p k n : Nat} (hlink : kernlink < dataBegin)
    (hdata : dataBegin ≤ kend) (hlow : lowest kend ≤ p) (hhigh : p + n ≤ highest) (hk : k < n) :
    Vm.kernelSpace dataBegin (p + k) = some ((UInt32.ofNat (p - kernbase)).toNat + k, true) := by
  have hbehind := Vm.lt_lowest kend
  have hbase : kernbase ≤ kernlink := by decide
  have htop : highest < 2 ^ 32 := by decide
  have hnat : (UInt32.ofNat (p - kernbase)).toNat = p - kernbase := by
    rw [UInt32.toNat_ofNat']
    exact Nat.mod_eq_of_lt (by omega)
  rw [Vm.kernelSpace_behind hlink hdata (by omega) (by omega), hnat]
  have hsub : p + k - kernbase = p - kernbase + k := by omega
  rw [hsub]

theorem setUp_of {kend dataBegin rx tx : Nat} {c : Card} {a : Allocator} {w w' : World}
    (hlink : kernlink < dataBegin) (hdata : dataBegin ≤ kend) (hs : d.slot < 32) (hf : d.func < 8)
    (hfree : FreeInv kend w.heap) (hboxes : Boxes kend w.heap a rx tx)
    (hseen : w'.seen =
      ⟨mastered w.bus.space d, Card.told c rx tx, Picirq.enabled w.pics 0xb, a⟩) :
    SetUp kend dataBegin d w (rtlAt d w.card.base rx tx) w' := by
  have hspace : w'.bus.space = mastered w.bus.space d := congrArg Seen.space hseen
  have hcard : w'.card = Card.told c rx tx := congrArg Seen.card hseen
  have hheap : w'.heap = a := congrArg Seen.heap hseen
  obtain ⟨⟨hrx, hrx'⟩, htx, htx'⟩ := hboxes.bounds hfree
  refine ⟨⟨rfl, rfl⟩, ?_, ?_, ?_, fun k hk => ?_, fun i hi k hk => ?_, hheap ▸ hboxes, ?_,
    congrArg Seen.pics hseen⟩
  · rw [hspace]
    exact command_mastered hs hf
  · rw [hspace]
    exact fun _ _ _ _ => field_mastered hs hf
  · rw [hcard]
    exact ⟨rfl, rfl, rfl, rfl⟩
  · rw [hcard]
    exact kernelSpace_box hlink hdata hrx hrx' (Nat.lt_trans hk (by decide))
  · have htold : (Card.told c rx tx).tsad (tsadRegs.getD i 0) =
        UInt32.ofNat (tx + txBufSize * i - kernbase) := toldTx_at tx hi
    have hend : tx + txBufSize * i + txBufSize ≤ highest := by
      simp only [numTxBuffers, txBufSize] at hi ⊢
      omega
    rw [hcard, htold]
    exact kernelSpace_box hlink hdata (Nat.le_add_right_of_le htx) hend hk
  · rw [hcard]
    rfl

end Result

section Found

variable {kend rounds dataBegin : Nat} {w : World} {d : PciDevice}

/-- `init` is what it does with the first device. -/
theorem init_of_found (hd : firstDevice w.bus.space realtek rtl8139 = some d)
    {o : Outcome Unit (Option Rtl)} {u : Seen}
    (h : Gives World.seen (initFound kend rounds (some d)) w.seen o u) :
    (init kend rounds w).1 = o ∧ (init kend rounds w).2.seen = u := by
  have hfind : Gives World.seen (onBus (find realtek rtl8139)) w.seen (.ok (some d)) w.seen := by
    rw [← hd]
    exact gives_onBus (find_gives _ _)
  have hends : Gives World.seen (init kend rounds) w.seen o u := hfind.then h
  exact hends w rfl

theorem func_lt (hd : firstDevice w.bus.space realtek rtl8139 = some d) : d.func < 8 := by
  rw [(firstDevice_bounds hd).2]
  decide

/-- The card is found, and is as the driver expects it. -/
theorem init_setUp (hlink : kernlink < dataBegin) (hdata : dataBegin ≤ kend)
    (hfree : FreeInv kend w.heap) (hroom : ∃ r ∈ w.heap.ranges, 5 ≤ r.size + 1)
    (hport : w.card.base.toNat + 0x52 < 2 ^ 16) (hrounds : w.card.delay + 2 ≤ rounds)
    (hd : firstDevice w.bus.space realtek rtl8139 = some d)
    (hbase : (bar0Of w.bus.space d &&& ~~~ 0x3).toUInt16 = w.card.base)
    (hbar : (bar0Of w.bus.space d &&& 0x1).toUInt8 = barTypeIo)
    (hline : lineOf w.bus.space d = Traps.Interrupt.nicIrq) :
    ∃ r w', init kend rounds w = (.ok (some r), w') ∧ SetUp kend dataBegin d w r w' := by
  have hs := (firstDevice_bounds hd).1
  have hf := func_lt hd
  obtain ⟨rx, tx, a, c, hboxes, hrest⟩ :=
    initDevice_ends (v := w.seen) hs hf hbar hbase hport hrounds hfree hroom
  have hsame : lineOf (mastered w.bus.space d) d = lineOf w.bus.space d := lineOf_mastered hs hf
  have hdevice : Gives World.seen (initDevice kend rounds d) w.seen
      (.ok (rtlAt d w.card.base rx tx))
      ⟨mastered w.bus.space d, Card.told c rx tx, Picirq.enabled w.pics 0xb, a⟩ :=
    hrest _ (Gives.then (enableLine_gives (hsame.trans hline)) (gives_pure _))
  obtain ⟨hout, hseen⟩ := init_of_found hd (Gives.then hdevice (gives_pure _))
  exact ⟨_, _, Prod.ext hout rfl, setUp_of hlink hdata hs hf hfree hboxes hseen⟩

end Found

/-- **The card is set up.** The memory is set up, five pages in a row are free, and the first
    function on the bus with the right identity has the ports of the card in `BAR0`. If there is no
    such function `init` returns `None` and nothing has changed but the address register of the bus
    (`World.seen`); if its first address is one of memory,
    or its interrupt line is not the one of `Interrupt::NetworkInt`, it panics; and otherwise it
    returns a driver that shares its buffers with the card. -/
theorem nic_init {kend rounds dataBegin : Nat} {w : World} (hlink : kernlink < dataBegin)
    (hdata : dataBegin ≤ kend) (hfree : FreeInv kend w.heap)
    (hroom : ∃ r ∈ w.heap.ranges, 5 ≤ r.size + 1) (hport : w.card.base.toNat + 0x52 < 2 ^ 16)
    (hrounds : w.card.delay + 2 ≤ rounds)
    (hbase : ∀ d, firstDevice w.bus.space realtek rtl8139 = some d →
      (bar0Of w.bus.space d &&& ~~~ 0x3).toUInt16 = w.card.base) :
    (firstDevice w.bus.space realtek rtl8139 = none →
      ∃ w', init kend rounds w = (.ok none, w') ∧ w'.seen = w.seen) ∧
    ∀ d, firstDevice w.bus.space realtek rtl8139 = some d →
      ((bar0Of w.bus.space d &&& 0x1).toUInt8 = barTypeIo ∧
        lineOf w.bus.space d = Traps.Interrupt.nicIrq →
        ∃ r w', init kend rounds w = (.ok (some r), w') ∧ SetUp kend dataBegin d w r w') ∧
      (¬ ((bar0Of w.bus.space d &&& 0x1).toUInt8 = barTypeIo ∧
        lineOf w.bus.space d = Traps.Interrupt.nicIrq) → (init kend rounds w).1 = .panic) := by
  refine ⟨fun hnone => ?_, fun d hd => ?_⟩
  · have hfind : Gives World.seen (onBus (find realtek rtl8139)) w.seen (.ok none) w.seen := by
      rw [← hnone]
      exact gives_onBus (find_gives _ _)
    have hends : Gives World.seen (init kend rounds) w.seen (.ok none) w.seen :=
      hfind.then (gives_pure _)
    obtain ⟨hout, hseen⟩ := hends w rfl
    exact ⟨_, Prod.ext hout rfl, hseen⟩
  · have hs := (firstDevice_bounds hd).1
    have hf := func_lt hd
    refine ⟨fun h => init_setUp hlink hdata hfree hroom hport hrounds hd (hbase d hd) h.1 h.2,
      fun h => ?_⟩
    by_cases hbar : (bar0Of w.bus.space d &&& 0x1).toUInt8 = barTypeIo
    · obtain ⟨rx, tx, a, c, -, hrest⟩ :=
        initDevice_ends (v := w.seen) hs hf hbar (hbase d hd) hport hrounds hfree hroom
      have hline : lineOf (mastered w.bus.space d) d ≠ Traps.Interrupt.nicIrq :=
        fun he => h ⟨hbar, (lineOf_mastered hs hf).symm.trans he⟩
      have hdevice : Gives World.seen (initDevice kend rounds d) w.seen .panic
          ⟨mastered w.bus.space d, Card.told c rx tx, w.pics, a⟩ :=
        hrest _ (Gives.then_panic (enableLine_panics hline))
      exact (init_of_found hd (Gives.then_panic hdevice)).1
    · exact (init_of_found hd (Gives.then_panic (initDevice_memory (v := w.seen) hs hf hbar))).1

/-- A bus with the card in slot 3, five free pages, and a reset that takes three reads. -/
def slotThree : World where
  bus := ⟨0, fun a =>
    if a = configAddress 0 3 0 0 then 0x813910ec
    else if a = configAddress 0 3 0 0x10 then 0xc001
    else if a = configAddress 0 3 0 0x3c then 0x10b
    else 0⟩
  card := {
    base := 0xc000, delay := 3, resetting := 0, config1 := 0xff, command := 0, rbStart := 0
    tsad := fun _ => 0, imr := 0, rxConfig := 0, tsd := fun _ => own, capr := 0 }
  pics := Picirq.firmware false
  heap := ⟨⟨kernbase, 0⟩, [⟨kernlink + 0x3000, 4⟩], 5⟩

theorem slotThree_free : FreeInv (kernlink + 0x2000) slotThree.heap := by
  refine ⟨by decide, by decide, rfl, List.pairwise_singleton _ _, ?_, ?_, ?_, rfl⟩
  · exact List.forall_mem_singleton.mpr (by decide)
  · exact List.forall_mem_singleton.mpr (by decide)
  · exact List.forall_mem_singleton.mpr (by rw [stop_eq]; decide)

theorem nic_init_slotThree : ∃ r w', init (kernlink + 0x2000) 5 slotThree = (.ok (some r), w') ∧
    SetUp (kernlink + 0x2000) (kernlink + 0x1000) ⟨0, 3, 0⟩ slotThree r w' := by
  have hfound : firstDevice slotThree.bus.space realtek rtl8139 = some ⟨0, 3, 0⟩ := by
    decide +kernel
  have hroom : ∃ r ∈ slotThree.heap.ranges, 5 ≤ r.size + 1 :=
    ⟨_, List.mem_singleton_self _, by decide⟩
  refine ((nic_init (by decide) (by decide) slotThree_free hroom (by decide) (by decide) ?_).2 _
    hfound).1 ⟨by decide, by decide⟩
  intro d hd
  cases hfound.symm.trans hd
  decide

end Sprocket.Rtl8139
