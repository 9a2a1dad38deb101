/-
  File:      Sprocket/Rtl8139/Driver.lean
  Subject:   THE RTL8139 DRIVER, as the source computes it (`rtl8139.rs`).

  The card has four transmit descriptors and one receive ring. A transmit descriptor is a status
  register (`TSD`) and a buffer of the driver; the driver clears `OWN` to start a transmission, the
  card sets `TOK` and `OWN` when it is done. The receive ring is memory the card writes frames to;
  the driver tells it through `CAPR` up to where it has read.

  Here are the fields of `Rtl8139` and the registers its functions read and write. The lock around
  the driver makes each call atomic. Configuration, the interrupt status register and logging are
  left out: no transmission or reception depends on what the driver reads there.
-/
import Mathlib.Logic.Function.Basic
import Sprocket.Lib.Word

namespace Sprocket.Rtl8139

open Prog

abbrev baseBufSize : Nat := 8192
abbrev bufSize : Nat := 8192 + 1500 + 16
abbrev numTxBuffers : Nat := 4
abbrev txBufSize : Nat := 2048

/-! ## 1. Transmit status -/

abbrev own : BitVec 32 := 1#32 <<< 13
abbrev tok : BitVec 32 := 1#32 <<< 15

def contains (x flags : BitVec 32) : Bool := x &&& flags == flags

def remove (x flags : BitVec 32) : BitVec 32 := x &&& ~~~flags

/-- `set_length`: the low twelve bits. -/
def setLength (x : BitVec 32) (length : Nat) : BitVec 32 :=
  (x &&& ~~~0xFFF#32) ||| (BitVec.ofNat 32 length &&& 0xFFF#32)

/-- The driver and the card's registers. -/
structure Nic where
  rxBuffer : Nat → UInt8
  txBuffer : Nat → List UInt8
  txOffset : Nat
  freeTxBuffers : Nat
  rxOffset : Nat
  /-- The transmit status registers. -/
  tsd : Nat → BitVec 32
  /-- The current address of packet read. -/
  capr : Nat

/-- After `init` and the reset of the card, which owns no descriptor. -/
def Nic.reset (capr : Nat) : Nic where
  rxBuffer _ := 0
  txBuffer _ := List.replicate txBufSize 0
  txOffset := 0
  freeTxBuffers := numTxBuffers
  rxOffset := 0
  tsd _ := own
  capr := capr

/-! ## 2. Transmitting -/

def nextTxOffset (off : Nat) : Nat := (off + 1) % numTxBuffers

def txAvailable (n : Nic) : Bool := 0 < n.freeTxBuffers

/-- `NetworkCard::transmit`: whether a buffer was reserved. -/
def transmit (n : Nic) : Bool × Nic :=
  if txAvailable n then (true, { n with freeTxBuffers := n.freeTxBuffers - 1 }) else (false, n)

/-- `hw_transmit`, which the drop of an `EthernetTxBuffer` calls. -/
def hwTransmit (buf : List UInt8) : Prog Nic Unit Unit := do
  let n ← get
  let offset := n.txOffset
  let tsd := n.tsd offset
  require (contains tsd own)
  let tsd := remove (setLength tsd buf.length) own
  -- a longer buffer does not fit into the slice
  require (buf.length ≤ txBufSize)
  modify fun n => { n with
    txBuffer := Function.update n.txBuffer offset (buf ++ (n.txBuffer offset).drop buf.length) }
  modify fun n => { n with tsd := Function.update n.tsd offset tsd }
  modify fun n => { n with txOffset := nextTxOffset n.txOffset }

/-- `interrupt`: the loop over the free transmit buffers. -/
def interrupt (n : Nic) : Nic :=
  if contains (n.tsd n.txOffset) (tok ||| own) ∧ n.freeTxBuffers < numTxBuffers then
    interrupt { n with freeTxBuffers := n.freeTxBuffers + 1 }
  else n
termination_by numTxBuffers - n.freeTxBuffers

/-! ## 3. Receiving -/

/-- A byte of the receive buffer; an index behind its end panics. -/
def rxByte (i : Nat) : Prog Nic Unit UInt8 := do
  require (i < bufSize)
  let n ← get
  pure (n.rxBuffer i)

def getRxLen : Prog Nic Unit Nat := do
  let n ← get
  let b1 ← rxByte (n.rxOffset + 2)
  let b2 ← rxByte (n.rxOffset + 3)
  pure ((b2.toNat <<< 8) ||| b1.toNat)

abbrev rxOk : BitVec 16 := 1#16

/-- The bits `RxHeader` names; the others are dropped. -/
abbrev rxHeaderBits : BitVec 16 := 0xE03F#16

def getRxHdr : Prog Nic Unit (BitVec 16) := do
  let n ← get
  let b1 ← rxByte n.rxOffset
  let b2 ← rxByte (n.rxOffset + 1)
  pure (BitVec.ofNat 16 ((b2.toNat <<< 8) ||| b1.toNat) &&& rxHeaderBits)

/-- `read`, with what `rx_empty` reads from the card. -/
def read (rxEmpty : Bool) : Prog Nic Unit (Option (List UInt8)) :=
  if rxEmpty then pure none
  else do
    let hdr ← getRxHdr
    if hdr &&& rxOk = rxOk then
      let len ← getRxLen
      let n ← get
      -- the end of the slice
      require (n.rxOffset + 4 + len ≤ bufSize)
      pure (some ((List.range len).map fun i => n.rxBuffer (n.rxOffset + 4 + i)))
    else pure none

/-- `NetworkCard::receive`; the error is `Exhausted`. -/
def receive (rxEmpty : Bool) : Prog Nic Unit (List UInt8) := do
  match ← read rxEmpty with
  | some b => pure b
  | none => fail ()

def setCapr (off : Nat) : Prog Nic Unit Unit := do
  require (off < bufSize)
  modify fun n => { n with capr := off % 2 ^ 16 }

/-- `update_capr`, which the drop of an `EthernetRxBuffer` calls. -/
def updateCapr : Prog Nic Unit Unit := do
  let n ← get
  let len ← getRxLen
  let x ← checkedAdd n.rxOffset len
  let x ← checkedAdd x 4
  let x ← checkedAdd x 3
  -- clearing the low two bits is rounding down to a multiple of four
  modify fun n => { n with rxOffset := x / 4 * 4 }
  let n ← get
  let newCapr ← checkedSub n.rxOffset 0x10
  setCapr newCapr
  let n ← get
  if baseBufSize ≤ n.rxOffset then
    modify fun n => { n with rxOffset := n.rxOffset % baseBufSize }
  else pure ()

end Sprocket.Rtl8139
