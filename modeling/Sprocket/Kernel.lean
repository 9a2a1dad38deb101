/-
  File:      Sprocket/Kernel.lean
  Subject:   THE KERNEL COMES UP: `main` as a whole, from `ENTRYPGDIR` to the first interrupt.

  `main` sets up the memory in two parts, and between them the interrupt controllers and the timer;
  then it reads the PCI bus and sets up the network card. The parts share two things: the heap, of
  which the page tables and the buffers of the card are made, and the mask of the interrupt
  controllers, which is opened by the console before they are initialized and by the timer and the
  card afterwards.

  * `main_pics` -- the calls on the controllers, wherever `main` makes them;
  * `served_main` -- the lines that get through, in their order;
  * `main_comes_up` -- `main` returns a driver or stops, by an assertion or an abort, and what holds
    when it returns.

  The segments, the gates of the traps and the registers of the timer and the UART are not
  modelled: nothing here reads them.
-/
import Sprocket.Picirq
import Sprocket.Rtl8139.Init
import Sprocket.Vm.BootMemory

namespace Sprocket.Kernel

open Prog Kalloc Pci Traps
open Vm (Machine early kernelSpace)
open Vm.Heap (tablePages)
open Rtl8139 (Rtl realtek rtl8139 bar0Of lineOf SetUp bufSize txBufSize numTxBuffers tsadRegs)

/-! ## 1. The code -/

/-- The memory, the bus, the card and the interrupt controllers. -/
structure World where
  memory : Machine
  bus : Bus
  card : Rtl8139.Card
  pics : Picirq.Pics

/-- The part of the driver of the card: its heap is the one of the memory. -/
def World.nic (w : World) : Rtl8139.World := ⟨w.bus, w.card, w.pics, w.memory.1.1⟩

def World.withNic (w : World) (n : Rtl8139.World) : World where
  memory := ((n.heap, w.memory.1.2), w.memory.2)
  bus := n.bus
  card := n.card
  pics := n.pics

section Code

variable {α : Type}

def onMemory : Prog Machine Unit α → Prog World Unit α :=
  zoom World.memory fun w m => { w with memory := m }

def onPics : Prog Picirq.Pics Unit α → Prog World Unit α :=
  zoom World.pics fun w p => { w with pics := p }

def onBus : Prog Bus Unit α → Prog World Unit α :=
  zoom World.bus fun w b => { w with bus := b }

def onNic : Prog Rtl8139.World Unit α → Prog World Unit α := zoom World.nic World.withNic

/-- The first `println!` makes the console and, if there is a serial port, `Uart::init` enables its
    line. -/
def consoleInit (serial : Bool) : Prog World Unit Unit :=
  if serial then onPics (Picirq.enableIrq Interrupt.com1Irq.toUInt32) else pure ()

/-- `timerinit`, behind the writes to the timer. -/
def timerinit : Prog World Unit Unit := onPics (Picirq.enableIrq Interrupt.timerIrq.toUInt32)

/-- `main` behind the bounds of the first part of the heap. -/
def setUp (kend dataBegin rounds heapStart heapEnd : Nat) : Prog World Unit (Option Rtl) := do
  onMemory (Vm.heapInit kend heapStart heapEnd)
  onMemory (Vm.kvmalloc kend dataBegin)
  onPics Picirq.picinit
  timerinit
  let rest ← toVirt (4 * 1024 * 1024)
  let top ← toVirt phystop
  onMemory (Vm.heapInit kend rest top)
  onBus enumerate
  onNic (Rtl8139.init kend rounds)

/-- `main` up to `irq::enable`, with what it leaves in `NIC`. -/
def main (kend dataBegin rounds : Nat) (serial : Bool) : Prog World Unit (Option Rtl) := do
  consoleInit serial
  let behind ← checkedAdd kend pgsize
  let heapStart ← pageRoundup behind
  let heapEnd ← toVirt (4 * 1024 * 1024)
  setUp kend dataBegin rounds heapStart heapEnd

end Code

/-! ## 2. The interrupt controllers -/

/-- The line of the console, before the initialization. -/
def consoleCalls (serial : Bool) : List Picirq.Call := if serial then [.enableIrq 4] else []

def consolePics (serial : Bool) (p : Picirq.Pics) : Picirq.Pics :=
  if serial then Picirq.enabled p 4 else p

/-- The controllers at the end of `main`. -/
def mainPics (serial : Bool) (p : Picirq.Pics) : Picirq.Pics :=
  Picirq.enabled (Picirq.enabled (Picirq.initialized (consolePics serial p)) 0) 0xb

/-- **The calls of `main`, the UART, the timer and the card in a row.** -/
theorem main_pics (serial : Bool) (p : Picirq.Pics) :
    Picirq.runCalls (consoleCalls serial ++ .picinit :: Picirq.enables [0, 0xb]) p =
      (.ok (), mainPics serial p) := by
  have hrest : ∀ q, Picirq.runCalls (.picinit :: Picirq.enables [0, 0xb]) q =
      (.ok (), Picirq.enabled (Picirq.enabled (Picirq.initialized q) 0) 0xb) := fun q =>
    (bind_of_ok (Picirq.picinit_gives q)).trans
      ((bind_of_ok (Picirq.enableIrq_gives _ (by decide))).trans
        (bind_of_ok (Picirq.enableIrq_gives _ (by decide))))
  cases serial with
  | false => exact hrest p
  | true => exact (bind_of_ok (Picirq.enableIrq_gives p (by decide))).trans (hrest _)

/-- The timer comes first, then the card, for it is on the slave, then the serial port. -/
theorem served_main (serial : Bool) (req : Nat → Bool) :
    Picirq.served (consoleCalls serial) [0, 0xb] 16 req =
      if req 0 then some 0 else if req 0xb then some 0xb
      else if serial && req 4 then some 4 else none := by
  have hpasses : ∀ n ∈ Picirq.order,
      (Picirq.passes (consoleCalls serial) [0, 0xb] n && decide (n < 16)) =
        (n == 0 || n == 0xb || serial && n == 4) := by
    cases serial <;> decide
  have hlines : ∀ n ∈ Picirq.order,
      (req n && (Picirq.passes (consoleCalls serial) [0, 0xb] n && decide (n < 16))) =
        (req n && (n == 0 || n == 0xb || serial && n == 4)) := fun n hn => by rw [hpasses n hn]
  rw [Picirq.served, List.find?_congr hlines]
  -- the three lines in the order of the cascade, every other one is passed over
  cases serial <;> cases h0 : req 0 <;> cases h11 : req 11 <;> cases h4 : req 4 <;>
    simp [Picirq.order, List.range, List.range.loop, h0, h11, h4]

/-- What `trap` is given when lines are requested after `main`. -/
def interruptFor (serial : Bool) (req : Nat → Bool) : Option Interrupt :=
  if req 0 then some .timerInt else if req 0xb then some .networkInt
  else if serial && req 4 then some .com1Int else none

theorem vector_interrupt (timer card port : Bool) :
    Interrupt.ofByte (32 + UInt8.ofNat ((if timer then some 0 else if card then some 0xb
      else if port then some 4 else none).getD 7)) =
      if timer then some .timerInt else if card then some .networkInt
      else if port then some .com1Int else none := by
  revert timer card port
  decide

/-- **Three lines get through, each with its own vector.** -/
theorem mainPics_routes (serial : Bool) {p : Picirq.Pics} (hmask : p.mask = Picirq.newMask)
    (hmaster : p.master.isr = 0) (hslave : p.slave.isr = 0) (req : Nat → Bool) :
    (mainPics serial p).interrupts req = (interruptFor serial req).isSome ∧
      ((mainPics serial p).acknowledge req).1.bind Interrupt.ofByte = interruptFor serial req := by
  have hvalid : Picirq.Valid (consoleCalls serial ++ .picinit :: Picirq.enables [0, 0xb]) := by
    unfold Picirq.Valid
    cases serial <;> decide
  obtain ⟨t, hrun, -, -, hops⟩ := Picirq.runCalls_operates hmask hmaster hslave hvalid
  rw [main_pics] at hrun
  cases hrun
  obtain ⟨hint, hack⟩ := hops.routes req
  rw [Picirq.served_eq, served_main] at hint hack
  rw [hint, hack, interruptFor]
  refine ⟨?_, vector_interrupt (req 0) (req 0xb) (serial && req 4)⟩
  cases req 0 <;> cases req 0xb <;> cases serial && req 4 <;> rfl

/-! ## 3. The world before and after -/

/-- Where the linker has put the kernel, its data, `ALLOCATOR` and `ENTRYPGDIR`. -/
structure Linked (kend dataBegin allocAt entryAt : Nat) : Prop where
  aligned : dataBegin % pgsize = 0
  link : kernlink < dataBegin
  data : dataBegin ≤ kend
  alloc : allocAt < kend
  entry : kernbase ≤ entryAt
  entry_lt : entryAt < kend

/-- The first card on the bus is the one at its ports, on the line of `Interrupt::NetworkInt`, and
    its reset is over in time. -/
structure CardAt (rounds : Nat) (d : PciDevice) (sp : UInt32 → UInt32) (card : Rtl8139.Card) :
    Prop where
  found : firstDevice sp realtek rtl8139 = some d
  io : (bar0Of sp d &&& 0x1).toUInt8 = barTypeIo
  base : (bar0Of sp d &&& ~~~ 0x3).toUInt16 = card.base
  line : lineOf sp d = Interrupt.nicIrq
  ports : card.base.toNat + 0x52 < 2 ^ 16
  reset : card.delay + 2 ≤ rounds

/-- **The world `main` starts in.** The memory is what `ENTRYPGDIR` makes of it, and the controllers
    may be in any state with no line in service. -/
structure Starts (allocAt entryAt rounds : Nat) (d : PciDevice) (w : World) : Prop where
  memory : ∃ s, w.memory = Machine.start allocAt entryAt s
  mask : w.pics.mask = Picirq.newMask
  master : w.pics.master.isr = 0
  slave : w.pics.slave.isr = 0
  card : CardAt rounds d w.bus.space w.card

/-- **What holds when `main` has returned a driver.** -/
structure Up (kend dataBegin entryAt : Nat) (serial : Bool) (r : Rtl) (w : World) : Prop where
  space : ∀ v < 2 ^ 32, w.memory.translate entryAt v = kernelSpace dataBegin v
  /-- The buffers of the card, the free pages, the directory and its tables are the memory behind
      the kernel, and no page is two of these. -/
  pages : (pagesAt r.rxBuffer 3 ++ (pagesAt r.txBuffer 2 ++ freePages w.memory.1.1) ++
      w.memory.2.kpgdir / 4096 :: tablePages w.memory.1.2).Perm
    (pagesAt (lowest kend) ((highest - lowest kend) / 4096))
  /-- The directory in force maps every byte of a buffer to where the card has it. -/
  receive : ∀ k < bufSize, w.memory.translate entryAt (r.rxBuffer + k) =
    some (w.card.rbStart.toNat + k, true)
  transmit : ∀ i < numTxBuffers, ∀ k < txBufSize,
    w.memory.translate entryAt (r.txBuffer + txBufSize * i + k) =
      some ((w.card.tsad (tsadRegs.getD i 0)).toNat + k, true)
  interrupts : ∀ req, w.pics.interrupts req = (interruptFor serial req).isSome ∧
    (w.pics.acknowledge req).1.bind Interrupt.ofByte = interruptFor serial req

/-- The world when the memory and the controllers are set up. -/
def World.beforeNic (w : World) (serial : Bool) (m : Machine) : World where
  memory := m
  bus := w.bus
  card := w.card
  pics := Picirq.enabled (Picirq.initialized (consolePics serial w.pics)) 0

/-- The heap is no part of the address space. -/
theorem translate_heap (m : Machine) (a : Allocator) (entryAt v : Nat) :
    Machine.translate entryAt ((a, m.1.2), m.2) v = m.translate entryAt v := rfl

section Steps

variable {kend dataBegin allocAt entryAt rounds : Nat} {serial : Bool} {d : PciDevice} {w : World}

theorem gives_onMemory {m : Prog Machine Unit Unit} {o : Outcome Unit Unit} {t : Machine}
    (h : m w.memory = (o, t)) : Gives id (onMemory m) w o { w with memory := t } :=
  gives_id_iff.mpr (by simp only [onMemory, zoom, h])

theorem gives_onPics {m : Prog Picirq.Pics Unit Unit} {p : Picirq.Pics}
    (h : m w.pics = (.ok (), p)) : Gives id (onPics m) w (.ok ()) { w with pics := p } :=
  gives_id_iff.mpr (by simp only [onPics, zoom, h])

theorem consoleInit_gives :
    Gives id (consoleInit serial) w (.ok ()) { w with pics := consolePics serial w.pics } := by
  cases serial with
  | false => exact gives_pure ()
  | true => exact gives_onPics (Picirq.enableIrq_gives w.pics (by decide))

/-- **The end of `main`.** The bus is read, the card is found where it was, and is set up. -/
theorem nic_gives (hlink : kernlink < dataBegin) (hdata : dataBegin ≤ kend)
    (hcard : CardAt rounds d w.bus.space w.card) (hfree : FreeInv kend w.memory.1.1)
    (hroom : ∃ r ∈ w.memory.1.1.ranges, 5 ≤ r.size + 1) :
    ∃ r n n', n.heap = w.memory.1.1 ∧ n.pics = w.pics ∧ SetUp kend dataBegin d n r n' ∧
      Gives id (do
        onBus enumerate
        onNic (Rtl8139.init kend rounds)) w (.ok (some r)) (w.withNic n') := by
  obtain ⟨hok, hspace⟩ : (enumerate w.bus).1 = .ok () ∧ (enumerate w.bus).2.space = w.bus.space :=
    enumerate_gives w.bus rfl
  obtain ⟨b, hb⟩ : ∃ b, (enumerate w.bus).2 = b := ⟨_, rfl⟩
  have hread : Gives id (onBus enumerate) w (.ok ()) { w with bus := b } :=
    gives_id_iff.mpr (by simp only [onBus, zoom, hok, hb])
  rw [hb] at hspace
  rw [← hspace] at hcard
  obtain ⟨r, n', hrun, hset⟩ : ∃ r n', Rtl8139.init kend rounds (World.nic { w with bus := b }) =
      (.ok (some r), n') ∧ SetUp kend dataBegin d (World.nic { w with bus := b }) r n' :=
    Rtl8139.init_setUp hlink hdata hfree hroom hcard.ports hcard.reset hcard.found hcard.base
      hcard.io hcard.line
  refine ⟨r, _, n', rfl, rfl, hset, hread.then (gives_id_iff.mpr ?_)⟩
  simp only [onNic, zoom, hrun]
  rfl

/-- The directory and its tables are below the bound of `ENTRYPGDIR`: there was no other memory when
    they were made. -/
theorem tables_early (hentry : kernbase ≤ entryAt) {s : Vm.Paging}
    {m : Machine} (hready : Vm.Ready kend dataBegin entryAt (Machine.start allocAt entryAt s) m)
    {q : Nat} (hq : q ∈ m.2.kpgdir / 4096 :: tablePages m.1.2) : 4096 * q < early := by
  have hbehind := Vm.lt_lowest kend
  have hlowmod := Vm.lowest_mod kend
  have hsizes : highest % 4096 = 0 ∧ highest < 2 ^ 32 := by decide
  have hmem := Vm.mem_pagesAt_iff.mp (hready.pages.mem_iff.mp (List.mem_append_right _ hq))
  have hpage : 4096 * q / 4096 = q := Nat.mul_div_cancel_left q (by decide)
  have hmapped := (hready.tables (4096 * q) (by rwa [hpage])).1
  rw [Vm.translate_start hentry s (by omega), Vm.entrySpace] at hmapped
  by_cases hlow : 4096 * q < 0x400000
  · exact Nat.lt_trans hlow (by decide)
  · rw [if_neg hlow] at hmapped
    by_cases hhigh : kernbase ≤ 4096 * q ∧ 4096 * q < kernbase + 0x400000
    · exact hhigh.2
    · rw [if_neg hhigh] at hmapped
      cases hmapped

/-- So there is room for the buffers of the card behind that bound. -/
theorem room_behind (hentry : kernbase ≤ entryAt) (hroom : lowest kend < early) {s : Vm.Paging}
    {m : Machine} (hfree : FreeInv kend m.1.1)
    (hready : Vm.Ready kend dataBegin entryAt (Machine.start allocAt entryAt s) m) :
    ∃ r ∈ m.1.1.ranges, 5 ≤ r.size + 1 := by
  refine hfree.range_of_pages (q := early / 4096) (by decide) fun i hi => ?_
  have hlowmod := Vm.lowest_mod kend
  have hsizes : early % 4096 = 0 ∧ early + 5 * 4096 ≤ highest := by decide
  have hmem : early / 4096 + i ∈ pagesAt (lowest kend) ((highest - lowest kend) / 4096) := by
    refine Vm.mem_pagesAt_iff.mpr ?_
    omega
  rcases List.mem_append.mp (hready.pages.mem_iff.mpr hmem) with h | h
  · exact h
  · have hlt := tables_early hentry hready h
    omega

/-- `main` is what it does behind the bounds. -/
theorem main_of_bounds (hend : kend + 8192 < 2 ^ 32) {o : Outcome Unit (Option Rtl)} {w' : World}
    (h : Gives id (setUp kend dataBegin rounds (lowest kend) early)
      { w with pics := consolePics serial w.pics } o w') :
    main kend dataBegin rounds serial w = (o, w') := by
  unfold main
  refine gives_id_iff.mp (consoleInit_gives.then (Vm.heapStart_gives hend ?_))
  exact Gives.then (gives_checkedAdd (by decide)) h

theorem main_panics (hend : kend + 8192 < 2 ^ 32) {w' : World}
    (h : Gives id (setUp kend dataBegin rounds (lowest kend) early)
      { w with pics := consolePics serial w.pics } .panic w') :
    (main kend dataBegin rounds serial w).1 = .panic :=
  congrArg Prod.fst (main_of_bounds hend h)

theorem main_overflows (hend : ¬ kend + 8192 < 2 ^ 32) :
    (main kend dataBegin rounds serial w).1 = .panic := by
  have hpanics : Gives id (main kend dataBegin rounds serial) w .panic
      { w with pics := consolePics serial w.pics } :=
    consoleInit_gives.then (Vm.heapStart_overflows hend)
  exact (hpanics w rfl).1

/-- What the memory and the card have become is what `Up` says. -/
theorem up_of {s : Vm.Paging} {m : Machine} {r : Rtl} {n n' : Rtl8139.World}
    (hfree : FreeInv kend m.1.1)
    (hready : Vm.Ready kend dataBegin entryAt (Machine.start allocAt entryAt s) m)
    (hheap : n.heap = m.1.1) (hset : SetUp kend dataBegin d n r n')
    (hpics : ∀ req, n'.pics.interrupts req = (interruptFor serial req).isSome ∧
      (n'.pics.acknowledge req).1.bind Interrupt.ofByte = interruptFor serial req)
    {v : World} (hv : v.memory = m) : Up kend dataBegin entryAt serial r (v.withNic n') := by
  subst hv
  have hboxes := hset.memory
  rw [hheap] at hboxes
  obtain ⟨⟨-, hrx⟩, -, htx⟩ := hboxes.bounds hfree
  have htop : highest < 2 ^ 32 := by decide
  have hspace : ∀ x < 2 ^ 32, (v.withNic n').memory.translate entryAt x = kernelSpace dataBegin x :=
    fun x hx => (translate_heap v.memory n'.heap entryAt x).trans (hready.space x hx)
  refine ⟨hspace, ?_, fun k hk => ?_, fun i hi k hk => ?_, hpics⟩
  · exact (hboxes.pages.symm.append_right _).trans hready.pages
  · rw [hspace _ (by simp only [bufSize] at hk; omega)]
    exact hset.receive k hk
  · rw [hspace _ (by simp only [numTxBuffers, txBufSize] at hi hk ⊢; omega)]
    exact hset.transmit i hi k hk

end Steps

/-- **The kernel comes up exactly when 65 pages lie between the start of its heap and the bound of
    `ENTRYPGDIR`**, on a machine whose first card on the bus has its ports in `BAR0` and is on line
    11 (`CardAt`). With fewer pages `main` stops: the box of a page table aborts, or the allocator
    refuses an empty region. When it returns, the kernel's address space is in force, every page
    behind the kernel has one owner, the buffers of the card are where the card has them, and the
    timer, the card and the serial port are the devices whose first interrupt gets through, each as
    what it is. -/
theorem main_comes_up {kend dataBegin allocAt entryAt rounds : Nat} (serial : Bool)
    {d : PciDevice} {w : World} (hlinked : Linked kend dataBegin allocAt entryAt)
    (hstarts : Starts allocAt entryAt rounds d w) :
    (lowest kend + 65 * pgsize ≤ kernbase + 0x400000 →
      ∃ r w', main kend dataBegin rounds serial w = (.ok (some r), w') ∧
        Up kend dataBegin entryAt serial r w') ∧
    (¬ lowest kend + 65 * pgsize ≤ kernbase + 0x400000 →
      (main kend dataBegin rounds serial w).1 = .panic) := by
  obtain ⟨⟨s, hmem⟩, hmask, hmaster, hslave, hcard⟩ := hstarts
  obtain ⟨hal, hlink, hdata, halloc, hentry, hentry'⟩ := hlinked
  by_cases hroom : lowest kend < early
  · have hend : kend + 8192 < 2 ^ 32 := by
      have hbehind := Vm.lt_lowest kend
      simp only [kernbase, early] at hroom
      omega
    obtain ⟨m1, hinit, hrest⟩ :=
      Vm.memory_stages hal hlink hdata halloc hentry hentry' hroom s
    rw [← hmem] at hinit
    rcases hrest with ⟨hyes, m2, m3, hkvm, hinit', hfree, hready⟩ | ⟨hno, m2, hkvm⟩
    · refine ⟨fun _ => ?_, fun hno => absurd hyes hno⟩
      have hnic := room_behind hentry hroom hfree hready
      obtain ⟨r, n, n', hheap, hpics, hset, hlast⟩ :=
        nic_gives (w := w.beforeNic serial m3) hlink hdata hcard hfree hnic
      refine ⟨r, (w.beforeNic serial m3).withNic n', main_of_bounds hend ?_,
        up_of hfree hready hheap hset (fun req => ?_) rfl⟩
      · refine Gives.then (gives_onMemory hinit) (Gives.then (gives_onMemory hkvm) ?_)
        refine Gives.then (gives_onPics (Picirq.picinit_gives _)) ?_
        refine Gives.then (gives_onPics (Picirq.enableIrq_gives _ (by decide))) ?_
        refine Gives.then (gives_checkedAdd (by decide)) ?_
        refine Gives.then (gives_checkedAdd (by decide)) ?_
        exact Gives.then (gives_onMemory hinit') hlast
      · rw [hset.line, hpics]
        exact mainPics_routes serial hmask hmaster hslave req
    · refine ⟨fun hyes => absurd hyes hno, fun _ => ?_⟩
      exact main_panics hend
        (Gives.then (gives_onMemory hinit) (gives_onMemory hkvm).then_panic)
  · have hno : ¬ lowest kend + 65 * pgsize ≤ early := by
      simp only [pgsize]
      omega
    refine ⟨fun hyes => absurd hyes hno, fun _ => ?_⟩
    by_cases hend : kend + 8192 < 2 ^ 32
    · have hk : kernbase ≤ kend := Nat.le_trans hentry (Nat.le_of_lt hentry')
      have hrefused : Vm.heapInit kend (lowest kend) early w.memory = (.panic, w.memory) := by
        rw [hmem]
        exact Vm.heapInit_of_panic
          (Vm.init_refuses (Kalloc.start_free hk halloc) (Nat.le_of_not_lt hroom))
      exact main_panics hend (Gives.then_panic (gives_onMemory hrefused))
    · exact main_overflows hend

/-- A kernel of 64 KiB behind the first megabyte, and the card in slot 3. -/
def smallKernel : World where
  memory := Machine.start 0x80109000 0x80104000 (Vm.Paging.empty fun _ => none)
  bus := Rtl8139.slotThree.bus
  card := Rtl8139.slotThree.card
  pics := Picirq.firmware false

theorem smallKernel_linked : Linked 0x80110000 0x80108000 0x80109000 0x80104000 :=
  ⟨by decide, by decide, by decide, by decide, by decide, by decide⟩

theorem smallKernel_starts : Starts 0x80109000 0x80104000 5 ⟨0, 3, 0⟩ smallKernel := by
  refine ⟨⟨_, rfl⟩, rfl, rfl, rfl, ?_, by decide, by decide, by decide, by decide, by decide⟩
  decide +kernel

/-- It comes up, and an interrupt of the card arrives as one. -/
theorem main_comes_up_small : ∃ r w', main 0x80110000 0x80108000 5 true smallKernel =
      (.ok (some r), w') ∧
    (w'.pics.acknowledge fun n => n == 4 || n == 11).1.bind Interrupt.ofByte =
      some .networkInt := by
  obtain ⟨r, w', hrun, hup⟩ :=
    (main_comes_up true smallKernel_linked smallKernel_starts).1 (by decide)
  exact ⟨r, w', hrun, (hup.interrupts _).2⟩

end Sprocket.Kernel
