/-
  File:      Sprocket/Spinlock.lean
  Subject:   THE INTERRUPT DISCIPLINE OF `spinlock::Mutex` on one CPU.

  `Mutex` wraps `spin::Mutex`: the first lock of a nest saves the interrupt flag in the global
  `INT_ENABLED` and disables interrupts, the drop of the last guard enables them again if they were
  enabled before. `LOCK_COUNT` and `INT_ENABLED` are shared by the main code and the interrupt
  handlers, and an interrupt may arrive between any two instructions.

  The model is a machine that executes `lock` and `drop` one instruction at a time (`instr`). Main
  code and a handler are each a `Party` with its guards and its place in the code; the handler runs
  in front of the main code it interrupted. `spin::Mutex` is a correct lock: it is taken only when
  it is free. Which guards a party has is not for the code to say: it has a guard from the return of
  `lock` to the call of `drop`, whatever the two have done.

  * `instr_running` -- one instruction keeps what holds of the party that runs;
  * `Inv` -- what holds of the whole machine: the party that runs holds every mutex that is locked,
    and a party that was interrupted holds none and is outside the section that counts;
  * `Inv.returns` -- a call of `lock` or `drop` returns;
  * `interrupt_discipline` -- the count is the number of guards, it is zero when interrupts are
    enabled, no handler meets a mutex of the code it interrupted, and a drop unlocks, takes one from
    the count and, if it was the last, restores the interrupt flag.
-/
import Mathlib.Data.List.Nodup
import Mathlib.Data.List.Perm.Subperm
import Mathlib.Tactic.Ring
import Sprocket.Lib.Trace

namespace Sprocket.Spinlock

/-! ## 1. The machine -/

/-- The interrupt flag, the two globals, and which `spin::Mutex`es are locked. A mutex is named by
    its address. -/
structure Cpu where
  ifFlag : Bool
  intEnabled : Bool
  lockCount : UInt32
  locked : UInt32 → Bool

/-- The next instruction of a party. -/
inductive Pc where
  /-- Outside `lock` and `drop`. -/
  | idle
  | readFlags (m : UInt32)
  | disable (m : UInt32) (intEnabled : Bool)
  | loadCount (m : UInt32) (intEnabled : Bool)
  | storeEnabled (m : UInt32) (intEnabled : Bool)
  | fetchAdd (m : UInt32)
  | acquire (m : UInt32)
  | release (m : UInt32)
  | fence
  | fetchSub
  | testCount
  | testEnabled
  | enable
  deriving DecidableEq, Repr

/-- One instruction of `lock` or `drop`; `none` while the party spins or is outside of both. -/
def instr (c : Cpu) : Pc → Option (Cpu × Pc)
  | .idle => none
  -- `Mutex::lock`
  | .readFlags m => some (c, .disable m c.ifFlag)
  | .disable m b => some ({ c with ifFlag := false }, .loadCount m b)
  | .loadCount m b => some (c, if c.lockCount = 0 then .storeEnabled m b else .fetchAdd m)
  | .storeEnabled m b => some ({ c with intEnabled := b }, .fetchAdd m)
  | .fetchAdd m => some ({ c with lockCount := c.lockCount + 1 }, .acquire m)
  | .acquire m =>
    if c.locked m then none
    else some ({ c with locked := Function.update c.locked m true }, .idle)
  -- `MutexGuard::drop`
  | .release m => some ({ c with locked := Function.update c.locked m false }, .fence)
  | .fence => some (c, .fetchSub)
  | .fetchSub => some ({ c with lockCount := c.lockCount - 1 }, .testCount)
  | .testCount => some (c, if c.lockCount = 0 then .testEnabled else .idle)
  | .testEnabled => some (c, if c.intEnabled then .enable else .idle)
  | .enable => some ({ c with ifFlag := true }, .idle)

/-- The mutex that is being locked. -/
def Pc.locking : Pc → Option UInt32
  | .readFlags m | .disable m _ | .loadCount m _ | .storeEnabled m _ | .fetchAdd m | .acquire m =>
    some m
  | _ => none

/-- The party's next instruction is one of `drop`. -/
def Pc.inDrop : Pc → Bool
  | .release _ | .fence | .fetchSub | .testCount | .testEnabled | .enable => true
  | _ => false

/-- Code that runs on the CPU: its guards, and its next instruction. `before` is not part of the
    program: it records the interrupt flag just before the first lock of the current nest. -/
structure Party where
  held : List UInt32
  pc : Pc
  before : Bool
  deriving DecidableEq, Repr

/-- The call of `lock`: with no guard outstanding it begins a nest. -/
def Party.callLock (c : Cpu) (m : UInt32) (p : Party) : Party :=
  { p with pc := .readFlags m, before := if p.held = [] then c.ifFlag else p.before }

/-- The party goes on at `pc`: where `lock` returns, it has a guard. -/
def Party.goOn (p : Party) (pc : Pc) : Party :=
  match p.pc.locking, pc with
  | some m, .idle => { p with pc := .idle, held := m :: p.held }
  | _, _ => { p with pc := pc }

/-- The call of `drop`, which consumes the guard. -/
def Party.callDrop (m : UInt32) (p : Party) : Party :=
  { p with pc := .release m, held := p.held.erase m }

/-- The number of locks and guards a party has entered: its guards, and the lock or drop it is in
    once `fetch_add` and as long as not `fetch_sub` is done. -/
def Party.entered (p : Party) : Nat :=
  p.held.length + match p.pc with
    | .acquire _ | .release _ | .fence | .fetchSub => 1
    | _ => 0

/-- The mutexes that are a party's: those it has guards of, and the one it is about to release. -/
def Party.mutexes (p : Party) : List UInt32 :=
  match p.pc with
  | .release m => m :: p.held
  | _ => p.held

/-- The machine: main code, and the handler that interrupted it, if any. -/
structure State where
  cpu : Cpu
  main : Party
  handler : Option Party

def State.running (s : State) : Party := s.handler.getD s.main

/-- The machine with the party that runs replaced. -/
def State.resume (s : State) (c : Cpu) (p : Party) : State :=
  match s.handler with
  | none => { s with cpu := c, main := p }
  | some _ => { s with cpu := c, handler := some p }

def State.entered (s : State) : Nat :=
  s.main.entered + (s.handler.map Party.entered).getD 0

inductive Event where
  | lock (m : UInt32)
  | drop (m : UInt32)
  | instr
  | interrupt
  | iret
  | setFlag (b : Bool)

/-- **What can happen next.** A party locks a mutex it does not hold, drops any guard it has, or
    goes on inside `lock` or `drop`. A handler starts whenever the flag is set and returns when it
    has dropped its guards; main code may change the flag while the count is zero. -/
inductive Step : State → Event → State → Prop where
  | lock {s : State} {m : UInt32} (hidle : s.running.pc = .idle) (hm : m ≠ 0)
      (hnew : m ∉ s.running.held) : Step s (.lock m) (s.resume s.cpu (s.running.callLock s.cpu m))
  | drop {s : State} {m : UInt32} (hidle : s.running.pc = .idle) (hm : m ∈ s.running.held) :
      Step s (.drop m) (s.resume s.cpu (s.running.callDrop m))
  | instr {s : State} {c : Cpu} {pc : Pc} (h : Spinlock.instr s.cpu s.running.pc = some (c, pc)) :
      Step s .instr (s.resume c (s.running.goOn pc))
  | interrupt {s : State} (hno : s.handler = none) (hif : s.cpu.ifFlag = true) :
      Step s .interrupt
        { s with cpu := { s.cpu with ifFlag := false }, handler := some ⟨[], .idle, false⟩ }
  | iret {s : State} {p : Party} (hp : s.handler = some p) (hidle : p.pc = .idle)
      (hheld : p.held = []) :
      Step s .iret { s with cpu := { s.cpu with ifFlag := true }, handler := none }
  | setFlag {s : State} (b : Bool) (hno : s.handler = none) (hidle : s.main.pc = .idle)
      (hcount : s.cpu.lockCount = 0) :
      Step s (.setFlag b) { s with cpu := { s.cpu with ifFlag := b } }

/-- Nothing is locked, and the flag is `b`. -/
def State.start (b : Bool) : State where
  cpu := ⟨b, false, 0, fun _ => false⟩
  main := ⟨[], .idle, false⟩
  handler := none

/-! ## 2. What holds of the party that runs -/

/-- Interrupts are off, and `INT_ENABLED` says what to do about them at the end of the nest. -/
def Closed (c : Cpu) (p : Party) : Prop := c.ifFlag = false ∧ c.intEnabled = p.before

/-- The flags at each instruction. -/
def FlagsAt (c : Cpu) (p : Party) : Pc → Prop
  | .idle => p.held ≠ [] → Closed c p
  | .readFlags _ => (p.held = [] → c.ifFlag = p.before) ∧ (p.held ≠ [] → Closed c p)
  | .disable _ b =>
    (p.held = [] → c.ifFlag = p.before ∧ b = p.before) ∧ (p.held ≠ [] → Closed c p)
  | .loadCount _ b =>
    c.ifFlag = false ∧ (p.held = [] → b = p.before) ∧ (p.held ≠ [] → Closed c p)
  | .storeEnabled _ b => c.ifFlag = false ∧ p.held = [] ∧ b = p.before
  | .testEnabled => Closed c p ∧ p.held = []
  | .enable => Closed c p ∧ p.held = [] ∧ c.intEnabled = true
  | _ => Closed c p

/-- The mutex at each instruction: a party has no guard of one it is locking or releasing. -/
def MutexAt (p : Party) : Pc → Prop
  | .readFlags m | .disable m _ | .loadCount m _ | .storeEnabled m _ | .fetchAdd m | .acquire m
  | .release m => m ≠ 0 ∧ m ∉ p.held
  | _ => True

/-- **What holds of the party that runs**: what is locked is its, and it is what is counted. -/
structure Running (c : Cpu) (p : Party) : Prop where
  nodup : p.held.Nodup
  nonzero : ∀ m ∈ p.held, m ≠ 0
  locked : ∀ m, c.locked m = true ↔ m ∈ p.mutexes
  count : c.lockCount.toNat = p.entered
  mutex : MutexAt p p.pc
  flags : FlagsAt c p p.pc

/-- There are fewer mutexes than the count can hold: none is at address zero. -/
theorem length_lt_of_nonzero {l : List UInt32} (hnd : l.Nodup) (hz : ∀ m ∈ l, m ≠ 0) :
    l.length < 2 ^ 32 := by
  have hsub : (l.map UInt32.toNat) ⊆ List.range' 1 (2 ^ 32 - 1) := by
    intro n hn
    obtain ⟨m, hm, rfl⟩ := List.mem_map.mp hn
    have hpos : m.toNat ≠ 0 := fun e => hz m hm (UInt32.toNat.inj e)
    have hlt := m.toNat_lt
    rw [List.mem_range'_1]
    omega
  have hnd' : (l.map UInt32.toNat).Nodup :=
    hnd.map fun _ _ e => UInt32.toNat.inj e
  have hlen := (hnd'.subperm hsub).length_le
  rw [List.length_map, List.length_range'] at hlen
  omega

theorem count_zero_iff {c : Cpu} {n : Nat} (h : c.lockCount.toNat = n) :
    c.lockCount = 0 ↔ n = 0 := by
  rw [← h]
  exact ⟨fun e => by rw [e]; rfl, fun e => UInt32.toNat.inj e⟩

theorem toNat_add_one {x : UInt32} (h : x.toNat + 1 < 2 ^ 32) : (x + 1).toNat = x.toNat + 1 := by
  rw [UInt32.toNat_add, UInt32.toNat_one]
  exact Nat.mod_eq_of_lt h

theorem toNat_sub_one {x : UInt32} {n : Nat} (h : x.toNat = n + 1) : (x - 1).toNat = n := by
  rw [UInt32.toNat_sub_of_le x 1
    (UInt32.le_iff_toNat_le.mpr (by rw [h]; exact Nat.le_add_left 1 n)),
    h]
  rfl

/-- Setting a mutex's bit adds the mutex to what is locked. -/
theorem locked_acquire {locked : UInt32 → Bool} {held : List UInt32} (m : UInt32)
    (hl : ∀ x, locked x = true ↔ x ∈ held) :
    ∀ x, Function.update locked m true x = true ↔ x ∈ m :: held := by
  intro x
  by_cases hx : x = m
  · rw [hx]
    simp
  · simp only [Function.update_of_ne hx, List.mem_cons, hx, false_or]
    exact hl x

/-- Clearing a mutex's bit takes the mutex out of what is locked. -/
theorem locked_release {locked : UInt32 → Bool} {held : List UInt32} {m : UInt32} (hm : m ∉ held)
    (hl : ∀ x, locked x = true ↔ x ∈ m :: held) :
    ∀ x, Function.update locked m false x = true ↔ x ∈ held := by
  intro x
  by_cases hx : x = m
  · rw [hx]
    simp [hm]
  · rw [Function.update_of_ne hx, hl x, List.mem_cons]
    simp only [hx, false_or]

/-- The spin ends where the mutex is free. -/
theorem instr_acquire {c c' : Cpu} {m : UInt32} {pc : Pc}
    (hi : instr c (.acquire m) = some (c', pc)) :
    c' = { c with locked := Function.update c.locked m true } ∧ pc = .idle := by
  dsimp only [instr] at hi
  by_cases hlk : c.locked m = true
  · rw [if_pos hlk] at hi
    cases hi
  · rw [if_neg hlk] at hi
    cases hi
    exact ⟨rfl, rfl⟩

/-- The count does not wrap when one more mutex is entered. -/
theorem count_enter {count : UInt32} {held : List UInt32} {m : UInt32} (hnd : held.Nodup)
    (hz : ∀ x ∈ held, x ≠ 0) (hm : m ≠ 0 ∧ m ∉ held) (hc : count.toNat = held.length) :
    (count + 1).toNat = held.length + 1 := by
  have hlen : (m :: held).length < 2 ^ 32 := length_lt_of_nonzero
    (List.nodup_cons.mpr ⟨hm.2, hnd⟩) (List.forall_mem_cons.mpr ⟨hm.1, hz⟩)
  rw [toNat_add_one (by rw [hc]; exact hlen), hc]

/-- With interrupts enabled nothing is held and nothing is counted, and what `INT_ENABLED` says
    does not matter. -/
theorem Running.open {c : Cpu} {p : Party} (h : Running c p) (hif : c.ifFlag = true) :
    p.held = [] ∧ p.entered = 0 ∧ ∀ b, Running { c with intEnabled := b } p := by
  have hclosed : ¬ Closed c p := fun hc => absurd (hif.symm.trans hc.1) (by decide)
  obtain ⟨hnd, hz, hl, hcount, hm, hf⟩ := h
  rcases p with ⟨held, pc, before⟩
  have hheld : held = [] := by
    by_contra hne
    cases pc with
    | idle => exact hclosed (hf hne)
    | readFlags m => exact hclosed (hf.2 hne)
    | disable m b => exact hclosed (hf.2 hne)
    | loadCount m b => exact hclosed (hf.2.2 hne)
    | storeEnabled m b => exact hne hf.2.1
    | testEnabled => exact hne hf.2
    | enable => exact hne hf.2.1
    | _ => exact hclosed hf
  subst hheld
  cases pc with
  | idle => exact ⟨rfl, rfl, fun b => ⟨hnd, hz, hl, hcount, hm, fun hne => absurd rfl hne⟩⟩
  | readFlags m =>
    exact ⟨rfl, rfl, fun b => ⟨hnd, hz, hl, hcount, hm, hf.1, fun hne => absurd rfl hne⟩⟩
  | disable m i =>
    exact ⟨rfl, rfl, fun b => ⟨hnd, hz, hl, hcount, hm, hf.1, fun hne => absurd rfl hne⟩⟩
  | loadCount m b => exact absurd (hif.symm.trans hf.1) (by decide)
  | storeEnabled m b => exact absurd (hif.symm.trans hf.1) (by decide)
  | testEnabled => exact absurd hf.1 hclosed
  | enable => exact absurd hf.1 hclosed
  | _ => exact absurd hf hclosed

/-- **One instruction keeps it.** -/
theorem instr_running {c c' : Cpu} {p : Party} {pc : Pc} (h : Running c p)
    (hi : instr c p.pc = some (c', pc)) : Running c' (p.goOn pc) := by
  obtain ⟨hnd, hz, hl, hcount, hm, hf⟩ := h
  rcases p with ⟨held, pc, before⟩
  have hne : ∀ {l : List UInt32}, l.length ≠ 0 → l ≠ [] := fun hlen e => hlen (by rw [e]; rfl)
  cases pc with
  | idle => cases hi
  | readFlags m =>
    cases hi
    exact ⟨hnd, hz, hl, hcount, hm, fun e => ⟨hf.1 e, hf.1 e⟩, hf.2⟩
  | disable m b =>
    cases hi
    exact ⟨hnd, hz, hl, hcount, hm, rfl, fun e => (hf.1 e).2, fun e => ⟨rfl, (hf.2 e).2⟩⟩
  | loadCount m b =>
    cases hi
    by_cases h0 : c.lockCount = 0
    · rw [if_pos h0]
      have hlen : held = [] := List.eq_nil_of_length_eq_zero ((count_zero_iff hcount).mp h0)
      exact ⟨hnd, hz, hl, hcount, hm, hf.1, hlen, hf.2.1 hlen⟩
    · rw [if_neg h0]
      exact ⟨hnd, hz, hl, hcount, hm, hf.2.2 (hne fun e => h0 ((count_zero_iff hcount).mpr e))⟩
  | storeEnabled m b =>
    cases hi
    exact ⟨hnd, hz, hl, hcount, hm, hf.1, hf.2.2⟩
  | fetchAdd m =>
    cases hi
    exact ⟨hnd, hz, hl, count_enter hnd hz hm hcount, hm, hf⟩
  | acquire m =>
    obtain ⟨rfl, rfl⟩ := instr_acquire hi
    exact ⟨List.nodup_cons.mpr ⟨hm.2, hnd⟩, List.forall_mem_cons.mpr ⟨hm.1, hz⟩,
      locked_acquire m hl, hcount, trivial, fun _ => hf⟩
  | release m =>
    cases hi
    exact ⟨hnd, hz, locked_release hm.2 hl, hcount, trivial, hf⟩
  | fence =>
    cases hi
    exact ⟨hnd, hz, hl, hcount, trivial, hf⟩
  | fetchSub =>
    cases hi
    exact ⟨hnd, hz, hl, toNat_sub_one hcount, trivial, hf⟩
  | testCount =>
    cases hi
    by_cases h0 : c.lockCount = 0
    · rw [if_pos h0]
      have hlen : held = [] := List.eq_nil_of_length_eq_zero ((count_zero_iff hcount).mp h0)
      exact ⟨hnd, hz, hl, hcount, trivial, hf, hlen⟩
    · rw [if_neg h0]
      exact ⟨hnd, hz, hl, hcount, trivial, fun _ => hf⟩
  | testEnabled =>
    cases hi
    by_cases hen : c.intEnabled = true
    · rw [if_pos hen]
      exact ⟨hnd, hz, hl, hcount, trivial, hf.1, hf.2, hen⟩
    · rw [if_neg hen]
      exact ⟨hnd, hz, hl, hcount, trivial, fun hn => absurd hf.2 hn⟩
  | enable =>
    cases hi
    exact ⟨hnd, hz, hl, hcount, trivial, fun hn => absurd hf.2.1 hn⟩

/-- **The last drop restores the flag.** -/
theorem drop_restores {c c' : Cpu} {p : Party} (h : Running c p) (hdrop : p.pc.inDrop = true)
    (hi : instr c p.pc = some (c', .idle)) (hlast : p.held = []) : c'.ifFlag = p.before := by
  obtain ⟨_, _, _, hcount, _, hf⟩ := h
  rcases p with ⟨held, pc, before⟩
  cases hlast
  cases pc with
  | testCount =>
    have h0 : c.lockCount = 0 := (count_zero_iff hcount).mpr rfl
    dsimp only [instr] at hi
    rw [if_pos h0] at hi
    cases hi
  | testEnabled =>
    dsimp only [instr] at hi
    by_cases hen : c.intEnabled = true
    · rw [if_pos hen] at hi
      cases hi
    · -- interrupts stay off: they were off before
      rw [if_neg hen] at hi
      cases hi
      have hoff : before = false := hf.1.2.symm.trans (Bool.eq_false_iff.mpr hen)
      exact hf.1.1.trans hoff.symm
  | enable =>
    cases hi
    exact hf.2.2.symm.trans hf.1.2
  | release m => cases hi
  | fence => cases hi
  | fetchSub => cases hi
  | _ => cases hdrop

@[simp] theorem goOn_pc (p : Party) (pc : Pc) : (p.goOn pc).pc = pc := by
  unfold Party.goOn
  split <;> rfl

@[simp] theorem goOn_before (p : Party) (pc : Pc) : (p.goOn pc).before = p.before := by
  unfold Party.goOn
  split <;> rfl

/-- Where the call returns, what was being locked is held. -/
@[simp] theorem goOn_idle_held (p : Party) :
    (p.goOn .idle).held = p.pc.locking.toList ++ p.held := by
  unfold Party.goOn
  cases p.pc.locking <;> rfl

theorem goOn_held {p : Party} {pc : Pc} (hpc : pc ≠ .idle) : (p.goOn pc).held = p.held := by
  unfold Party.goOn
  split
  · exact absurd rfl hpc
  · rfl

/-- A handler never enables interrupts: they were off when its nest began. -/
theorem instr_handler {c c' : Cpu} {p : Party} {pc : Pc} (h : Running c p)
    (hif : c.ifFlag = false) (hbefore : p.before = false) (hi : instr c p.pc = some (c', pc)) :
    c'.ifFlag = false := by
  have hf := h.flags
  rcases p with ⟨held, pc, before⟩
  cases pc with
  | idle => cases hi
  | disable m b => cases hi; rfl
  | acquire m =>
    obtain ⟨rfl, rfl⟩ := instr_acquire hi
    exact hif
  | enable =>
    have hoff : c.intEnabled = false := hf.1.2.trans hbefore
    exact absurd (hoff.symm.trans hf.2.2) (by decide)
  | _ => cases hi; exact hif

theorem callLock_running {c : Cpu} {p : Party} {m : UInt32} (h : Running c p) (hidle : p.pc = .idle)
    (hm : m ≠ 0) (hnew : m ∉ p.held) : Running c (p.callLock c m) := by
  obtain ⟨hnd, hz, hl, hcount, _, hf⟩ := h
  rcases p with ⟨held, pc, before⟩
  cases hidle
  refine ⟨hnd, hz, hl, hcount, ⟨hm, hnew⟩, fun e => (if_pos e).symm, fun e => ?_⟩
  exact ⟨(hf e).1, (hf e).2.trans (if_neg e).symm⟩

theorem callDrop_running {c : Cpu} {p : Party} {m : UInt32} (h : Running c p) (hidle : p.pc = .idle)
    (hm : m ∈ p.held) : Running c (p.callDrop m) := by
  obtain ⟨hnd, hz, hl, hcount, _, hf⟩ := h
  rcases p with ⟨held, pc, before⟩
  cases hidle
  refine ⟨hnd.erase m, fun x hx => hz x (List.mem_of_mem_erase hx), fun x => ?_, ?_,
    ⟨hz m hm, hnd.not_mem_erase⟩, hf (List.ne_nil_of_mem hm)⟩
  · exact (hl x).trans (List.perm_cons_erase hm).mem_iff
  · exact hcount.trans (List.perm_cons_erase hm).length_eq

/-- The instructions a call still takes, at most. -/
def Pc.cost : Pc → Nat
  | .idle => 0
  | .readFlags _ | .release _ => 6
  | .disable _ _ | .fence => 5
  | .loadCount _ _ | .fetchSub => 4
  | .storeEnabled _ _ | .testCount => 3
  | .fetchAdd _ | .testEnabled => 2
  | .acquire _ | .enable => 1

/-- An instruction brings the end of the call closer. -/
theorem instr_nears {c c' : Cpu} {pc pc' : Pc} (hi : instr c pc = some (c', pc')) :
    pc'.cost < pc.cost ∧
      (pc' = .idle ∨ pc'.locking = pc.locking ∧ pc'.inDrop = pc.inDrop) := by
  cases pc with
  | idle => cases hi
  | acquire m =>
    obtain ⟨rfl, rfl⟩ := instr_acquire hi
    exact ⟨Nat.zero_lt_one, .inl rfl⟩
  | loadCount m b =>
    cases hi
    by_cases h0 : c.lockCount = 0
    · rw [if_pos h0]
      exact ⟨by dsimp only [Pc.cost]; omega, .inr ⟨rfl, rfl⟩⟩
    · rw [if_neg h0]
      exact ⟨by dsimp only [Pc.cost]; omega, .inr ⟨rfl, rfl⟩⟩
  | testCount =>
    cases hi
    by_cases h0 : c.lockCount = 0
    · rw [if_pos h0]
      exact ⟨by dsimp only [Pc.cost]; omega, .inr ⟨rfl, rfl⟩⟩
    · rw [if_neg h0]
      exact ⟨by dsimp only [Pc.cost]; omega, .inl rfl⟩
  | testEnabled =>
    cases hi
    by_cases hen : c.intEnabled = true
    · rw [if_pos hen]
      exact ⟨by dsimp only [Pc.cost]; omega, .inr ⟨rfl, rfl⟩⟩
    · rw [if_neg hen]
      exact ⟨by dsimp only [Pc.cost]; omega, .inl rfl⟩
  | enable =>
    cases hi
    exact ⟨by dsimp only [Pc.cost]; omega, .inl rfl⟩
  | _ =>
    cases hi
    exact ⟨by dsimp only [Pc.cost]; omega, .inr ⟨rfl, rfl⟩⟩

/-- The party that runs never spins: a mutex it does not hold is free. -/
theorem Running.acquire_free {c : Cpu} {p : Party} {m : UInt32} (h : Running c p)
    (hpc : p.pc = .acquire m) : c.locked m = false := by
  have hmutex := h.mutex
  have hl := h.locked m
  rcases p with ⟨held, pc, before⟩
  cases hpc
  exact Bool.eq_false_iff.mpr fun hlk => hmutex.2 (hl.mp hlk)

theorem Running.instr_some {c : Cpu} {p : Party} (h : Running c p) (hpc : p.pc ≠ .idle) :
    ∃ c' pc, instr c p.pc = some (c', pc) := by
  cases hp : p.pc with
  | idle => exact absurd hp hpc
  | acquire m => exact ⟨_, _, if_neg (by simp [h.acquire_free hp])⟩
  | _ => exact ⟨_, _, rfl⟩

/-! ## 3. The whole machine -/

/-- Main code that was interrupted will find the flag set and nothing counted or locked, whatever
    the handler leaves in `INT_ENABLED`. -/
def Suspended (p : Party) : Prop := ∀ b, Running ⟨true, b, 0, fun _ => false⟩ p

/-- **What holds in every reachable state.** -/
def Inv (s : State) : Prop :=
  match s.handler with
  | none => Running s.cpu s.main
  | some p => Running s.cpu p ∧ s.cpu.ifFlag = false ∧ p.before = false ∧ Suspended s.main

theorem Inv.running {s : State} (h : Inv s) : Running s.cpu s.running := by
  rcases s with ⟨cpu, main, _ | p⟩
  · exact h
  · exact h.1

theorem mem_mutexes {p : Party} {m : UInt32} (hm : m ∈ p.held) : m ∈ p.mutexes := by
  unfold Party.mutexes
  split
  · exact List.mem_cons_of_mem _ hm
  · exact hm

/-- A party with nothing entered has no mutex. -/
theorem mutexes_nil {p : Party} (hentered : p.entered = 0) : p.mutexes = [] := by
  rcases p with ⟨held, pc, before⟩
  have hheld : held = [] := List.eq_nil_of_length_eq_zero (Nat.eq_zero_of_add_eq_zero hentered).1
  cases pc with
  | release m => cases hentered
  | _ => exact hheld

/-- The flag does not matter to a party with no guard outside of `lock` and `drop`. -/
theorem Running.at_rest {c : Cpu} {p : Party} (h : Running c p) (hidle : p.pc = .idle)
    (hheld : p.held = []) (b : Bool) : Running { c with ifFlag := b } p := by
  refine ⟨h.nodup, h.nonzero, h.locked, h.count, h.mutex, ?_⟩
  rw [hidle]
  exact fun hn => absurd hheld hn

/-- Nothing counted, nothing locked: the CPU as main code knows it. -/
theorem Running.cpu_eq {c : Cpu} {p : Party} (h : Running c p) (hentered : p.entered = 0)
    (hif : c.ifFlag = true) : c = ⟨true, c.intEnabled, 0, fun _ => false⟩ := by
  have hcount : c.lockCount = 0 := (count_zero_iff h.count).mpr hentered
  have hlocked : c.locked = fun _ => false := by
    funext m
    rw [← Bool.not_eq_true, h.locked m, mutexes_nil hentered]
    exact List.not_mem_nil
  rcases c with ⟨i, b, n, l⟩
  cases hif
  cases hcount
  cases hlocked
  rfl

theorem Running.suspended {c : Cpu} {p : Party} (h : Running c p) (hif : c.ifFlag = true) :
    Suspended p := by
  obtain ⟨-, hentered, hany⟩ := h.open hif
  intro b
  have hb := hany b
  rwa [hb.cpu_eq hentered hif] at hb

/-- The invariant after a step of the party that runs. -/
theorem Inv.resume {s : State} (h : Inv s) {c : Cpu} {p : Party} (hr : Running c p)
    (hhandler : s.handler ≠ none → c.ifFlag = false ∧ p.before = false) : Inv (s.resume c p) := by
  rcases s with ⟨cpu, main, _ | q⟩
  · exact hr
  · obtain ⟨hif, hb⟩ := hhandler (Option.some_ne_none q)
    exact ⟨hr, hif, hb, h.2.2.2⟩

/-- In a handler the flag is off, and was before its nest. -/
theorem Inv.in_handler {s : State} (h : Inv s) (hs : s.handler ≠ none) :
    s.cpu.ifFlag = false ∧ s.running.before = false := by
  rcases s with ⟨cpu, main, _ | p⟩
  · exact absurd rfl hs
  · exact ⟨h.2.1, h.2.2.1⟩

theorem step_inv (s : State) (e : Event) (t : State) (h : Inv s) (hst : Step s e t) : Inv t := by
  cases hst with
  | lock hidle hm hnew =>
    refine h.resume (callLock_running h.running hidle hm hnew) fun hs => ?_
    obtain ⟨hif, hb⟩ := h.in_handler hs
    refine ⟨hif, ?_⟩
    unfold Party.callLock
    dsimp only
    rw [hif, hb, ite_self]
  | drop hidle hm =>
    exact h.resume (callDrop_running h.running hidle hm) fun hs => h.in_handler hs
  | instr hi =>
    refine h.resume (instr_running h.running hi) fun hs => ?_
    obtain ⟨hif, hb⟩ := h.in_handler hs
    exact ⟨instr_handler h.running hif hb hi, (goOn_before _ _).trans hb⟩
  | interrupt hno hif =>
    have hmain : Running s.cpu s.main := by
      have hr := h.running
      rwa [State.running, hno] at hr
    obtain ⟨-, hentered, _⟩ := hmain.open hif
    refine ⟨?_, rfl, rfl, hmain.suspended hif⟩
    rw [hmain.cpu_eq hentered hif]
    exact ⟨List.nodup_nil, nofun, fun _ => ⟨nofun, nofun⟩, rfl, trivial, fun hn => absurd rfl hn⟩
  | @iret p hp hidle hheld =>
    rcases s with ⟨cpu, main, hd⟩
    cases hp
    obtain ⟨hr, _, _, hsus⟩ := h
    have hopen : Running { cpu with ifFlag := true } p := hr.at_rest hidle hheld true
    obtain ⟨_, hentered, _⟩ := hopen.open rfl
    show Running { cpu with ifFlag := true } main
    rw [hopen.cpu_eq hentered rfl]
    exact hsus _
  | setFlag b hno hidle hcount =>
    rcases s with ⟨cpu, main, hd⟩
    cases hno
    have hr : Running cpu main := h
    have hlen : main.held.length + 0 = main.entered := by
      unfold Party.entered
      rw [hidle]
    have hheld : main.held = [] := List.eq_nil_of_length_eq_zero
      (hlen.trans ((count_zero_iff hr.count).mp hcount))
    exact hr.at_rest hidle hheld b

theorem start_inv (b : Bool) : Inv (State.start b) :=
  ⟨List.nodup_nil, nofun, fun _ => ⟨nofun, nofun⟩, rfl, trivial, fun hn => absurd rfl hn⟩

theorem Inv.entered {s : State} (h : Inv s) : s.cpu.lockCount.toNat = s.entered := by
  rcases s with ⟨cpu, main, _ | p⟩
  · exact h.count
  · have hmain : main.entered = 0 := ((h.2.2.2 false).open rfl).2.1
    show cpu.lockCount.toNat = main.entered + p.entered
    rw [hmain, Nat.zero_add]
    exact h.1.count

/-! ## 4. Calls return -/

@[simp] theorem running_resume (s : State) (c : Cpu) (p : Party) : (s.resume c p).running = p := by
  rcases s with ⟨cpu, main, _ | q⟩ <;> rfl

@[simp] theorem cpu_resume (s : State) (c : Cpu) (p : Party) : (s.resume c p).cpu = c := by
  rcases s with ⟨cpu, main, _ | q⟩ <;> rfl

/-- The party that runs in `s` goes on until its call has returned, and `P` holds then. -/
def Returns (s : State) (P : State → Prop) : Prop :=
  ∃ k u, Trace Step s (List.replicate k .instr) u ∧ u.running.pc = .idle ∧ P u

/-- The call has returned: after `lock` there is a guard more, and after the last drop the flag is
    what it was before the nest. -/
structure Returned (p : Party) (u : State) : Prop where
  inv : Inv u
  held : u.running.held = p.pc.locking.toList ++ p.held
  restored : p.pc.inDrop = true → p.held = [] → u.cpu.ifFlag = p.before

/-- **A call returns**: no instruction of the party that runs has to wait. -/
theorem Inv.returns {n : Nat} : ∀ {s : State}, Inv s → s.running.pc ≠ .idle →
    s.running.pc.cost ≤ n → Returns s (Returned s.running) := by
  induction n with
  | zero =>
    intro s h hpc hcost
    obtain ⟨c, pc, hi⟩ := h.running.instr_some hpc
    exact absurd ((instr_nears hi).1.trans_le hcost) (Nat.not_lt_zero _)
  | succ n ih =>
    intro s h hpc hcost
    obtain ⟨c, pc, hi⟩ := h.running.instr_some hpc
    have hstep : Step s .instr (s.resume c (s.running.goOn pc)) := .instr hi
    have hinv := step_inv _ _ _ h hstep
    obtain ⟨hless, hnext⟩ := instr_nears hi
    by_cases hidle : pc = .idle
    · subst hidle
      refine ⟨1, _, .single hstep, by simp, hinv, by simp, fun hdrop hlast => ?_⟩
      rw [cpu_resume]
      exact drop_restores h.running hdrop hi hlast
    · obtain ⟨hlocking, hdrop⟩ := hnext.resolve_left hidle
      have hrest := ih hinv (by simpa using hidle) (by simp; omega)
      obtain ⟨k, u, htrace, hu, hret⟩ := hrest
      rw [running_resume] at hret
      refine ⟨k + 1, u, htrace.cons hstep, hu, hret.inv, ?_, fun hd hlast => ?_⟩
      · rw [hret.held, goOn_pc, hlocking, goOn_held hidle]
      · have hback := hret.restored (by rw [goOn_pc, hdrop, hd]) (by rw [goOn_held hidle, hlast])
        rwa [goOn_before] at hback

/-- Outside of `lock` and `drop` the guards are what is locked and what is counted. -/
theorem Running.idle {c : Cpu} {p : Party} (h : Running c p) (hidle : p.pc = .idle) :
    c.lockCount.toNat = p.held.length ∧ ∀ m, c.locked m = true ↔ m ∈ p.held := by
  rcases p with ⟨held, pc, before⟩
  cases hidle
  exact ⟨h.count, h.locked⟩

/-- **`lock` returns with the mutex locked and counted.** -/
theorem lock_returns {s t : State} {m : UInt32} (h : Inv s) (hst : Step s (.lock m) t) :
    Returns t fun u => u.running.held = m :: s.running.held ∧ u.cpu.locked m = true ∧
      u.cpu.lockCount.toNat = s.cpu.lockCount.toNat + 1 := by
  have hinv := step_inv _ _ _ h hst
  cases hst with
  | lock hidle hm hnew =>
    obtain ⟨k, u, htrace, hu, hret⟩ := hinv.returns (by simp [Party.callLock]) le_rfl
    rw [running_resume] at hret
    have hheld : u.running.held = m :: s.running.held := hret.held
    obtain ⟨hcount, hlocked⟩ := hret.inv.running.idle hu
    refine ⟨k, u, htrace, hu, hheld, (hlocked m).mpr ?_, ?_⟩
    · rw [hheld]
      exact List.mem_cons_self
    · rw [hcount, hheld, List.length_cons, (h.running.idle hidle).1]

/-- **`drop` returns with the mutex free and one less counted**, and after the last drop the flag is
    what it was just before the nest began. -/
theorem drop_returns {s t : State} {m : UInt32} (h : Inv s) (hst : Step s (.drop m) t) :
    Returns t fun u => u.running.held = s.running.held.erase m ∧ u.cpu.locked m = false ∧
      u.cpu.lockCount.toNat + 1 = s.cpu.lockCount.toNat ∧
      (u.running.held = [] → u.cpu.ifFlag = s.running.before) := by
  have hinv := step_inv _ _ _ h hst
  cases hst with
  | drop hidle hm =>
    obtain ⟨k, u, htrace, hu, hret⟩ := hinv.returns (by simp [Party.callDrop]) le_rfl
    rw [running_resume] at hret
    have hheld : u.running.held = s.running.held.erase m := hret.held
    obtain ⟨hcount, hlocked⟩ := hret.inv.running.idle hu
    refine ⟨k, u, htrace, hu, hheld, ?_, ?_, fun hlast => ?_⟩
    · rw [← Bool.not_eq_true, hlocked m, hheld]
      exact h.running.nodup.not_mem_erase
    · rw [hcount, hheld, (h.running.idle hidle).1]
      exact (List.perm_cons_erase hm).length_eq.symm
    · exact hret.restored rfl (hheld.symm.trans hlast)

/-! ## 5. The discipline -/

/-- **The interrupt discipline.** In every state main code and handlers can reach, from any value
    of the interrupt flag: `LOCK_COUNT` is the number of guards entered; while it is not zero the
    flag is off; a mutex is locked as long as the party that runs has its guard, or is about to
    release it; a handler starts only when no mutex is locked, and no party waits for one that is
    locked. A call of `lock` returns with the mutex locked and one more counted; a call of `drop`
    returns with it free and one less counted, and the drop of a party's last guard leaves the flag
    as it was just before the first lock of the nest. -/
theorem interrupt_discipline {b : Bool} {es : List Event} {s : State}
    (h : Trace Step (State.start b) es s) :
    s.cpu.lockCount.toNat = s.entered ∧
    (s.cpu.lockCount ≠ 0 → s.cpu.ifFlag = false) ∧
    (∀ m, s.cpu.locked m = true ↔ m ∈ s.running.mutexes) ∧
    (∀ t, Step s .interrupt t → s.entered = 0 ∧ ∀ m, s.cpu.locked m = false) ∧
    (∀ m, s.running.pc = .acquire m → s.cpu.locked m = false) ∧
    (∀ m t, Step s (.lock m) t → Returns t fun u =>
      u.running.held = m :: s.running.held ∧ u.cpu.locked m = true ∧
      u.cpu.lockCount.toNat = s.cpu.lockCount.toNat + 1) ∧
    (∀ m t, Step s (.drop m) t → Returns t fun u =>
      u.running.held = s.running.held.erase m ∧ u.cpu.locked m = false ∧
      u.cpu.lockCount.toNat + 1 = s.cpu.lockCount.toNat ∧
      (u.running.held = [] → u.cpu.ifFlag = s.running.before)) ∧
    ∀ c, instr s.cpu s.running.pc = some (c, .idle) → s.running.pc.inDrop = true →
      s.running.held = [] → c.ifFlag = s.running.before := by
  have hs : Inv s := h.invariant step_inv (start_inv b)
  have hr := hs.running
  have hopen : s.cpu.ifFlag = true → s.cpu.lockCount = 0 := fun hif =>
    (count_zero_iff hr.count).mpr (hr.open hif).2.1
  refine ⟨hs.entered, fun hn => ?_, hr.locked, fun t ht => ?_, fun m hm => hr.acquire_free hm,
    fun m t => lock_returns hs, fun m t => drop_returns hs, ?_⟩
  · exact Bool.eq_false_iff.mpr fun hif => hn (hopen hif)
  · cases ht with
    | interrupt hno hif =>
      refine ⟨(count_zero_iff hs.entered).mp (hopen hif), fun m => ?_⟩
      rw [← Bool.not_eq_true, hr.locked m, mutexes_nil (hr.open hif).2.1]
      exact List.not_mem_nil
  · exact fun c hi hdrop hlast => drop_restores hr hdrop hi hlast

/-- An interrupt between the reading of the flags and their clearing, with a lock and a drop of its
    own; then main code locks a second mutex, drops the first one first, and drops the second. -/
theorem interrupt_discipline_window :
    ∃ es s t, Trace Step (State.start true) es s ∧ s.running.held = [8192] ∧
      s.running.before = true ∧ s.cpu.ifFlag = false ∧ Step s (.drop 8192) t ∧
      Returns t fun u => u.running.held = s.running.held.erase 8192 ∧
        u.cpu.locked 8192 = false ∧ u.cpu.lockCount.toNat + 1 = s.cpu.lockCount.toNat ∧
        (u.running.held = [] → u.cpu.ifFlag = s.running.before) := by
  have called : Trace Step (State.start true) [.lock 4096, .instr] _ :=
    (Trace.single (.lock rfl (by decide) List.not_mem_nil)).snoc (.instr rfl)
  -- the handler
  have entered := (called.snoc (.interrupt rfl rfl)).snoc
    (.lock (m := 8192) rfl (by decide) List.not_mem_nil)
  have closed := ((entered.snoc (.instr rfl)).snoc (.instr rfl)).snoc (.instr rfl)
  have locked := ((closed.snoc (.instr rfl)).snoc (.instr rfl)).snoc (.instr rfl)
  have dropped := locked.snoc (.drop (m := 8192) rfl List.mem_cons_self)
  have counted := ((dropped.snoc (.instr rfl)).snoc (.instr rfl)).snoc (.instr rfl)
  have returned := ((counted.snoc (.instr rfl)).snoc (.instr rfl)).snoc (.iret rfl rfl rfl)
  -- main code goes on with its first lock
  have stored := ((returned.snoc (.instr rfl)).snoc (.instr rfl)).snoc (.instr rfl)
  have first := (stored.snoc (.instr rfl)).snoc (.instr rfl)
  have again := first.snoc (.lock (m := 8192) rfl (by decide) (by decide))
  have nested := ((again.snoc (.instr rfl)).snoc (.instr rfl)).snoc (.instr rfl)
  have both := (nested.snoc (.instr rfl)).snoc (.instr rfl)
  have early := both.snoc (.drop (m := 4096) rfl (by decide))
  have second := (((early.snoc (.instr rfl)).snoc (.instr rfl)).snoc (.instr rfl)).snoc (.instr rfl)
  have hdrop := (interrupt_discipline second).2.2.2.2.2.2.1 8192
  exact ⟨_, _, _, second, rfl, rfl, rfl, .drop rfl List.mem_cons_self,
    hdrop _ (.drop rfl List.mem_cons_self)⟩

end Sprocket.Spinlock
